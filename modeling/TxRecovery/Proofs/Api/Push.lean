import TxRecovery.Api.Router
import TxRecovery.Proofs.Json.RoundTrip
import TxRecovery.Proofs.Node.Recovery
import TxRecovery.Proofs.Staging.Upserts

/-!
# Published batches, handed on

A published list that is posted to a peer as it stands (`Api.forward`). If its text is no longer than a body may be, the
peer reads from it the very views that were published, and its staging area is as if each had been upserted in turn; a
longer one is refused (`Api.published_staged`). How long it is depends on the views alone (`Api.forwardLength_eq`), and
nothing keeps these short: `Api.longView_refused`.
-/

namespace TxRecovery

theorem PushBody.parseFirst_render (b : PushBody) : Json.parseFirst record.read b.toJson.render = .ok b := by
  have hlist := Json.Reading.list_tree (r := .string) (w := .string) (fun _ => rfl) b.payloads
  have hset : (Json.Field.required "encodedPayloads" (.list .string) fun ps (_ : PushBody) => ⟨ps⟩).read
      (Json.Value.array (b.payloads.map .string)).tree = .ok fun _ => b :=
    congrArg (Except.map fun ps (_ : PushBody) => PushBody.mk ps) hlist
  rw [Json.parseFirst, Json.Value.parse_render]
  exact Json.Record.read_object (r := record) rfl hset

/-! ### How long a body is -/

namespace Json.Value

theorem length_joinCommas (xs : List (List Char)) :
    (joinCommas xs).length = xs.flatten.length + (xs.length - 1) := by
  induction xs using joinCommas.induct with
  | case1 => rfl
  | case2 x =>
    rw [List.flatten_singleton, joinCommas]
    rfl
  | case3 x xs hne ih =>
    have hpos : 0 < xs.length := List.length_pos_iff.2 hne
    rw [joinCommas, List.flatten_cons]
    · simp only [List.length_append, List.length_cons, List.length_nil, ih]
      omega
    · exact hne

theorem mem_joinCommas {c : Char} {xs : List (List Char)} (h : c ∈ joinCommas xs) : c = ',' ∨ ∃ x ∈ xs, c ∈ x := by
  induction xs using joinCommas.induct with
  | case1 => exact nomatch h
  | case2 x => exact .inr ⟨x, List.mem_singleton_self x, h⟩
  | case3 x xs hne ih =>
    rw [joinCommas] at h
    · rcases List.mem_append.1 h with h | h
      · rcases List.mem_append.1 h with h | h
        · exact .inr ⟨x, List.mem_cons_self, h⟩
        · exact .inl (List.mem_singleton.1 h)
      · rcases ih h with h | ⟨y, hy, h⟩
        · exact .inl h
        · exact .inr ⟨y, List.mem_cons_of_mem x hy, h⟩
    · exact hne

theorem itemChars_eq_map (vs : List Value) : itemChars vs = vs.map chars := by
  induction vs with
  | nil => rfl
  | cons v vs ih => rw [itemChars, ih, List.map_cons]

theorem flatMap_escape {cs : List Char} (h : ∀ c ∈ cs, escape c = [c]) : cs.flatMap escape = cs := by
  induction cs with
  | nil => rfl
  | cons c cs ih =>
    obtain ⟨hc, hcs⟩ := List.forall_mem_cons.1 h
    rw [List.flatMap_cons, hc, ih hcs, List.singleton_append]

theorem escape_digit : ∀ v : Fin 16,
    escape (Char.ofNat (Hex.digit v.val).toNat) = [Char.ofNat (Hex.digit v.val).toNat] ∧
      (Char.ofNat (Hex.digit v.val).toNat).toNat < 128 := by
  decide

theorem mem_hex {c : Char} {bs : Bytes} (h : c ∈ (Hex.encode bs).toList) : escape c = [c] ∧ c.toNat < 128 := by
  rw [Hex.encode, String.toList_ofList] at h
  obtain ⟨d, hd, rfl⟩ := List.mem_map.1 h
  obtain ⟨v, rfl⟩ := Hex.exists_digit_of_mem hd
  exact escape_digit v

/-- Digits stand between the quotes as they are. -/
theorem quoted_hex (bs : Bytes) : quoted (Hex.encode bs) = ['"'] ++ (Hex.encode bs).toList ++ ['"'] := by
  rw [quoted, flatMap_escape fun c hc => (mem_hex hc).1]

theorem length_quoted_hex (bs : Bytes) : (quoted (Hex.encode bs)).length = 2 * bs.length + 2 := by
  rw [quoted_hex, Hex.encode, String.toList_ofList]
  simp only [List.length_append, List.length_singleton, List.length_map, Hex.length_encodeBytes]
  omega

theorem ascii_quoted_hex {c : Char} {bs : Bytes} (h : c ∈ quoted (Hex.encode bs)) : c.toNat < 128 := by
  rw [quoted_hex] at h
  rcases List.mem_append.1 h with h | h
  · rcases List.mem_append.1 h with h | h
    · cases List.mem_singleton.1 h
      decide
    · exact (mem_hex h).2
  · cases List.mem_singleton.1 h
    decide

end Json.Value

/-! ### Answering -/

/-- Views that read back are pushed by upserting them. -/
theorem Node.eval_push_views {n : Node} {views : List Payload} {area : Staging.Area} (hviews : ∀ v ∈ views, v.Fits)
    (harea : n.area.upsertViews views = .ok area) :
    (Node.push (views.map Payload.encode)).eval n = (.ok (), { n with area }) := by
  induction views generalizing n with
  | nil =>
    cases harea
    rfl
  | cons v views ih =>
    obtain ⟨hv, hviews⟩ := List.forall_mem_cons.1 hviews
    rw [Staging.Area.upsertViews_cons] at harea
    cases hup : n.area.upsert v.hash (.ofPayload v) (.ofPayload v.encode v) with
    | error e =>
      rw [hup] at harea
      exact nomatch harea
    | ok r =>
      rw [hup] at harea
      rw [List.map_cons, push_cons, Op.eval_bind_ok (eval_stagePayload_of_upsert (Payload.decode_encode hv) hup)]
      exact ih hviews harea

namespace Api

open Http (Request Response)
open Staging (Area)

/-- A published list, posted to a peer as it stands. -/
def forward (payloads : List String) : Request :=
  ⟨"POST", "/pushBatch", [("content-type", "application/json")], (PushBody.toJson ⟨payloads⟩).render⟩

/-- The list that the event of a published batch carries. -/
def published (views : List Payload) : List String := views.map fun v => Hex.encode v.encode

/-- The bytes of a request that hands a published batch on. -/
def forwardLength (views : List Payload) : Nat := (Utf8.encode (forward (published views)).body).length

variable {n : Node} {views : List Payload} {area : Area}

theorem path_forward (payloads : List String) : (forward payloads).path = "/pushBatch" := by
  have hpath : String.ofList (Http.pathOf "/pushBatch".toList) = "/pushBatch" := by decide
  exact hpath

theorem handle_push {request : Request} (now : String) (hpath : request.path = "/pushBatch")
    (hmethod : request.method = "POST") (n : Node) :
    handle now request n = ((push request n).1.sized.withHeaders originHeaders, (push request n).2) := by
  have hroute : route? now request = some ⟨"/pushBatch", "POST", push⟩ := by
    rw [route?, hpath]
    rfl
  rw [handle, dispatch, hroute]
  simp only [hmethod, if_true, show "POST" ≠ "OPTIONS" by decide, if_false]

theorem handle_forward (now : String) (payloads : List String) (n : Node) :
    handle now (forward payloads) n =
      ((push (forward payloads) n).1.sized.withHeaders originHeaders, (push (forward payloads) n).2) :=
  handle_push now (path_forward payloads) rfl n

theorem readBody_posted (payloads : List String) : readBody PushBody.record (forward payloads) =
    if bodyLimit < (Utf8.encode (forward payloads).body).length then
      .error (.text 413 "Failed to buffer the request body: length limit exceeded")
    else .ok ⟨payloads⟩ := by
  have htype : ((forward payloads).header? "content-type").map Http.isJsonType = some true := by
    have hheader : (Http.header? [("content-type", "application/json")] "content-type").map Http.isJsonType =
        some true := by decide
    exact hheader
  have hparse : Json.parseFirst PushBody.record.read (forward payloads).body = .ok ⟨payloads⟩ :=
    PushBody.parseFirst_render _
  rw [readBody, htype]
  simp only [hparse]

theorem readBody_forward (views : List Payload) : readBody PushBody.record (forward (published views)) =
    if bodyLimit < forwardLength views then
      .error (.text 413 "Failed to buffer the request body: length limit exceeded")
    else .ok ⟨published views⟩ :=
  readBody_posted (published views)

/-- The text around the items of a list that is handed on. -/
def bodyFront : List Char := ['\x7b'] ++ Json.Value.quoted "encodedPayloads" ++ [':', '[']

theorem toList_body_posted (raws : List Bytes) : (forward (raws.map Hex.encode)).body.toList =
    bodyFront ++ Json.Value.joinCommas (raws.map fun raw => Json.Value.quoted (Hex.encode raw)) ++ [']', '\x7d'] := by
  have hitems : Json.Value.itemChars ((raws.map Hex.encode).map .string) =
      raws.map fun raw => Json.Value.quoted (Hex.encode raw) := by
    rw [Json.Value.itemChars_eq_map, List.map_map, List.map_map]
    rfl
  rw [forward, Json.Value.render, String.toList_ofList, ← hitems]
  simp only [PushBody.toJson, Json.Value.chars, Json.Value.fieldChars, Json.Value.joinCommas, bodyFront,
    List.append_assoc, List.cons_append, List.nil_append]

/-- Two digits for each byte, quotes around each payload, commas between them, and 22 characters around all. -/
theorem length_posted (raws : List Bytes) : (Utf8.encode (forward (raws.map Hex.encode)).body).length =
    22 + (raws.map fun raw => 2 * raw.length + 2).sum + (raws.length - 1) := by
  have hascii : ∀ c ∈ (forward (raws.map Hex.encode)).body.toList, c.toNat < 128 := by
    rw [toList_body_posted]
    refine List.forall_mem_append.2 ⟨List.forall_mem_append.2 ⟨Utf8.ascii_of_all (by decide), fun c hc => ?_⟩,
      Utf8.ascii_of_all (by decide)⟩
    rcases Json.Value.mem_joinCommas hc with rfl | ⟨x, hx, hc⟩
    · decide
    · obtain ⟨raw, -, rfl⟩ := List.mem_map.1 hx
      exact Json.Value.ascii_quoted_hex hc
  have hitems : (Json.Value.joinCommas (raws.map fun raw => Json.Value.quoted (Hex.encode raw))).length =
      (raws.map fun raw => 2 * raw.length + 2).sum + (raws.length - 1) := by
    rw [Json.Value.length_joinCommas, List.length_flatten, List.map_map, List.length_map]
    simp only [Function.comp_def, Json.Value.length_quoted_hex]
  have hfront : bodyFront.length = 20 := by decide
  rw [Utf8.encode, Utf8.length_encodeChars_ascii hascii, toList_body_posted, List.length_append,
    List.length_append, hitems, hfront]
  show 20 + _ + 2 = _
  omega

theorem forwardLength_eq (views : List Payload) :
    forwardLength views = 22 + (views.map fun v => 2 * v.encode.length + 2).sum + (views.length - 1) := by
  have h := length_posted (views.map Payload.encode)
  rwa [List.map_map, List.map_map, List.length_map] at h

/-- A batch that can be handed on is a small one. -/
theorem views_of_forwardLength_le (h : forwardLength views ≤ bodyLimit) :
    views.length < addressable ∧ ∀ v ∈ views, v.encode.length < addressable := by
  have hlimit : bodyLimit < addressable := by decide
  rw [forwardLength_eq] at h
  have hcount := length_le_sum (w := fun v : Payload => 2 * v.encode.length + 2) (fun _ => Nat.zero_lt_succ _) views
  refine ⟨by omega, fun v hv => ?_⟩
  have hmem := List.le_sum_of_mem (List.mem_map_of_mem (f := fun v : Payload => 2 * v.encode.length + 2) hv)
  omega

theorem push_forward_long (h : bodyLimit < forwardLength views) :
    push (forward (published views)) n =
      (.text 413 "Failed to buffer the request body: length limit exceeded", n) := by
  rw [push, readBody_forward, if_pos h]

theorem push_forward (h : forwardLength views ≤ bodyLimit) (hviews : ∀ v ∈ views, v.Fits)
    (harea : n.area.upsertViews views = .ok area) :
    push (forward (published views)) n = (.empty 200, { n with
      area
      metrics := { n.metrics with
        stagingRows := area.size, payloadsStaged := n.metrics.payloadsStaged + views.length } }) := by
  have hdecode : PushBody.decode ⟨published views⟩ = .ok (views.map Payload.encode) := PushBody.decode_encode views
  have hlength : (views.map Payload.encode).length = views.length := List.length_map _
  rw [push, readBody_forward, if_neg (Nat.not_lt.2 h)]
  simp only [hdecode, respond, Op.eval_bind_ok (Node.eval_push_views hviews harea)]
  rw [← hlength]
  rfl

/-- What one node publishes another one stages, if the request that hands it on is no longer than a body may be. A
longer one is refused. -/
theorem published_staged (views : List Payload) (recipient : PublicKey) (a b : Node) (now : String)
    {c : Staging.Contents} (hb : b.area.Holds c) (hmemory : FitsInMemory b.area.tree) :
    (a.publish views recipient).events = a.events ++ [.outboundBatch recipient.toBase64 (published views)] ∧
    (forwardLength views ≤ bodyLimit →
      ∃ area, b.area.upsertViews views = .ok area ∧
        (handle now (forward (published views)) b).1.status = 200 ∧
        (handle now (forward (published views)) b).2 = { b with
          area
          metrics := { b.metrics with
            stagingRows := area.size, payloadsStaged := b.metrics.payloadsStaged + views.length } }) ∧
    (bodyLimit < forwardLength views →
      (handle now (forward (published views)) b).1.status = 413 ∧
        (handle now (forward (published views)) b).2 = b) := by
  refine ⟨rfl, fun h => ?_, fun h => ?_⟩
  · obtain ⟨hcount, hlength⟩ := views_of_forwardLength_le h
    have hlength : ∀ v ∈ views, v.encode.length < UInt64.size := fun v hv =>
      lt_size_of_lt_addressable (hlength v hv)
    obtain ⟨area, _, harea, -⟩ := hb.upsertViews (hb.roomFor hmemory hcount) hlength
    rw [handle_forward, push_forward h (fun v hv => Payload.fits_of_length_lt (hlength v hv)) harea]
    exact ⟨area, harea, rfl, rfl⟩
  · rw [handle_forward, push_forward_long h]
    exact ⟨rfl, rfl⟩

theorem sampleHistory_staged :
    ∃ area, Node.sample.area.upsertViews Node.sampleHistory = .ok area ∧
      (handle "" (forward (published Node.sampleHistory)) Node.sample).1.status = 200 := by
  obtain ⟨c, hc⟩ := Node.reachable_sample.sound
  have h := published_staged Node.sampleHistory ⟨.replicate 32 3⟩ Node.sampleSender Node.sample "" hc.holds
    (by decide +kernel)
  have hlength : forwardLength Node.sampleHistory ≤ bodyLimit := by
    rw [forwardLength_eq]
    decide +kernel
  obtain ⟨area, harea, hstatus, -⟩ := h.2.1 hlength
  exact ⟨area, harea, hstatus⟩

/-- A view of more than a mebibyte. -/
def longView : Payload := { (default : Payload) with execHash := .replicate (1024 * 1024) 0 }

theorem bodyLimit_lt_longView : bodyLimit < forwardLength [longView] := by
  have hlength := longView.length_encode
  have hexec : longView.execHash.length = 1024 * 1024 := List.length_replicate
  have hlimit : bodyLimit = 2 * (1024 * 1024) := rfl
  rw [Payload.coreBytes, hexec] at hlength
  rw [forwardLength_eq, List.map_singleton, List.sum_singleton, hlimit]
  omega

/-- A long view is published, and the list that carries it is refused as it stands. -/
theorem longView_refused :
    (Node.sampleSender.publish [longView] default).events =
      [.outboundBatch (default : PublicKey).toBase64 (published [longView])] ∧
    (handle "" (forward (published [longView])) Node.sample).1.status = 413 := by
  rw [handle_forward, push_forward_long bodyLimit_lt_longView]
  exact ⟨rfl, rfl⟩

end Api

end TxRecovery
