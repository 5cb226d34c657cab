import TxRecovery.Proofs.Api.Metrics
import TxRecovery.Proofs.Staging.Convergence

/-!
# What a refused push leaves behind

All elements of a pushed batch are read as hexadecimal before the first is staged, so that a batch with one that is not
changes nothing. The payloads that they stand for are decoded one by one, each when it is its turn to be written. So a
push writes payloads until one fails and keeps what it has written (`Node.push_cases`), and a request that is refused
over an element which is no payload leaves those before it in the staging area (`Api.refused_push`).
-/

namespace TxRecovery

namespace Staging.Area

variable {a area : Area} {raw : Bytes} {raws done : List Bytes} {e : ResendError}

/-- Writes a pushed payload, as a version of the row of its transaction. -/
def write (a : Area) (raw : Bytes) : Except ResendError Area := do
  let p ← (Payload.decode raw).mapError .payload
  let (_, area) ← (a.upsert p.hash (.ofPayload p) (.ofPayload raw p)).mapError .db
  .ok area

/-- Writes payloads in order. One that fails ends it. -/
def writeAll (a : Area) (raws : List Bytes) : Except ResendError Area := raws.foldlM write a

theorem write_of_error {d : PayloadError} (hp : Payload.decode raw = .error d) :
    a.write raw = .error (.payload d) := by
  simp only [write, hp, Except.mapError, bind, Except.bind]

theorem write_of_ok {p : Payload} (hp : Payload.decode raw = .ok p) : a.write raw =
    match a.upsert p.hash (.ofPayload p) (.ofPayload raw p) with
    | .ok (_, area) => .ok area
    | .error d => .error (.db d) := by
  simp only [write, hp, Except.mapError, bind, Except.bind]
  rcases a.upsert p.hash (.ofPayload p) (.ofPayload raw p) with _ | ⟨_, _⟩ <;> rfl

theorem exists_of_write (hw : a.write raw = .ok area) : ∃ p row, Payload.decode raw = .ok p ∧
    area = a.put p.hash.bytes row := by
  cases hp : Payload.decode raw with
  | error d => cases (write_of_error hp).symm.trans hw
  | ok p =>
    rw [write_of_ok hp, upsert] at hw
    cases hr : a.find? p.hash with
    | error d =>
      rw [hr] at hw
      cases hw
    | ok row =>
      rw [hr] at hw
      cases hw
      exact ⟨p, _, rfl, rfl⟩

theorem write_error_cases (hw : a.write raw = .error e) :
    (∃ d, Payload.decode raw = .error d ∧ e = .payload d) ∨ ∃ p d, Payload.decode raw = .ok p ∧ e = .db d := by
  cases hp : Payload.decode raw with
  | error d =>
    cases (write_of_error hp).symm.trans hw
    exact .inl ⟨d, rfl, rfl⟩
  | ok p =>
    rw [write_of_ok hp] at hw
    rcases hup : a.upsert p.hash (.ofPayload p) (.ofPayload raw p) with d | r
    · rw [hup] at hw
      cases hw
      exact .inr ⟨p, d, rfl, rfl⟩
    · rw [hup] at hw
      exact nomatch hw

theorem writeAll_cons (a : Area) (raw : Bytes) (raws : List Bytes) :
    a.writeAll (raw :: raws) = (a.write raw).bind fun area => area.writeAll raws :=
  List.foldlM_cons

theorem exists_of_writeAll_cons (hw : a.writeAll (raw :: raws) = .ok area) :
    ∃ mid, a.write raw = .ok mid ∧ mid.writeAll raws = .ok area := by
  rw [writeAll_cons] at hw
  cases hfirst : a.write raw with
  | error e =>
    rw [hfirst] at hw
    exact nomatch hw
  | ok mid =>
    rw [hfirst] at hw
    exact ⟨mid, rfl, hw⟩

theorem decodes_of_writeAll (hw : a.writeAll raws = .ok area) : ∀ raw ∈ raws, ∃ p, Payload.decode raw = .ok p := by
  induction raws generalizing a with
  | nil => exact nofun
  | cons raw raws ih =>
    obtain ⟨mid, hfirst, hrest⟩ := exists_of_writeAll_cons hw
    obtain ⟨p, -, hp, -⟩ := exists_of_write hfirst
    exact List.forall_mem_cons.2 ⟨⟨p, hp⟩, ih hrest⟩

/-- Rows of other transactions stay as they are. -/
theorem get?_of_writeAll (hw : a.writeAll raws = .ok area) {k : Bytes}
    (hk : ∀ raw ∈ raws, ∀ p, Payload.decode raw = .ok p → k ≠ p.hash.bytes) : area.tree.get? k = a.tree.get? k := by
  induction raws generalizing a with
  | nil =>
    cases hw
    rfl
  | cons raw raws ih =>
    obtain ⟨hraw, hraws⟩ := List.forall_mem_cons.1 hk
    obtain ⟨mid, hfirst, hrest⟩ := exists_of_writeAll_cons hw
    obtain ⟨p, row, hp, rfl⟩ := exists_of_write hfirst
    exact (ih hrest hraws).trans (SortedMap.get?_insert_of_ne _ (hraw p hp) _)

/-- Of these payloads `done` are written, which gives `area`, and the one that comes next fails. -/
structure Stops (a : Area) (raws done : List Bytes) (e : ResendError) (area : Area) : Prop where
  written : a.writeAll done = .ok area
  next : ∃ raw rest, raws = done ++ raw :: rest ∧ area.write raw = .error e

/-- What is written reads. It is all that comes before the first payload which does not, unless a stored row is at
fault. -/
theorem Stops.cases (h : a.Stops raws done e area) :
    done <+: readable raws ∧
      (done = readable raws ∧ (∃ raw d, Payload.decode raw = .error d ∧ e = .payload d) ∨ ∃ d, e = .db d) := by
  obtain ⟨raw, rest, rfl, hraw⟩ := h.next
  have hdone : ∀ r ∈ done, (Payload.decode r).isOk = true := fun r hr => by
    obtain ⟨p, hp⟩ := decodes_of_writeAll h.written r hr
    rw [hp]
    rfl
  have hsplit : readable (done ++ raw :: rest) = done ++ readable (raw :: rest) :=
    List.takeWhile_append_of_pos hdone
  refine ⟨hsplit ▸ List.prefix_append _ _, ?_⟩
  rcases write_error_cases hraw with ⟨d, hp, rfl⟩ | ⟨-, d, -, rfl⟩
  · have hnil : readable (raw :: rest) = [] := by
      rw [readable, List.takeWhile_cons, hp]
      rfl
    exact .inl ⟨by rw [hsplit, hnil, List.append_nil], raw, d, hp, rfl⟩
  · exact .inr ⟨d, rfl⟩

end Staging.Area

namespace Node

open Staging (Area)

variable {n : Node}

theorem eval_stagePayload_eq (n : Node) (raw : Bytes) : (backend.stagePayload raw).eval n =
    match n.area.write raw with
    | .ok area => (.ok (), { n with area })
    | .error e => (.error e, n) := by
  cases hp : Payload.decode raw with
  | error d => rw [eval_stagePayload_error hp, Area.write_of_error hp]
  | ok p =>
    rw [eval_stagePayload_ok hp, Area.write_of_ok hp]
    rcases n.area.upsert p.hash (.ofPayload p) (.ofPayload raw p) with _ | ⟨_, _⟩ <;> rfl

/-- A push writes all payloads, or stops at one and keeps what came before it. -/
theorem push_cases (n : Node) (raws : List Bytes) :
    (∃ area, n.area.writeAll raws = .ok area ∧ (push raws).eval n = (.ok (), { n with area })) ∨
      ∃ done e area, n.area.Stops raws done e area ∧ (push raws).eval n = (.error e, { n with area }) := by
  induction raws generalizing n with
  | nil => exact .inl ⟨n.area, rfl, rfl⟩
  | cons raw raws ih =>
    have hfirst := eval_stagePayload_eq n raw
    cases hw : n.area.write raw with
    | error e =>
      rw [hw] at hfirst
      exact .inr ⟨[], e, n.area, ⟨rfl, raw, raws, rfl, hw⟩, Op.eval_bind_error hfirst _⟩
    | ok mid =>
      rw [hw] at hfirst
      have hcons : ∀ done, n.area.writeAll (raw :: done) = mid.writeAll done := fun done => by
        rw [Area.writeAll_cons, hw]
        rfl
      rw [push_cons, Op.eval_bind_ok hfirst]
      rcases ih { n with area := mid } with ⟨area, hall, heval⟩ | ⟨done, e, area, hstops, heval⟩
      · exact .inl ⟨area, (hcons raws).trans hall, heval⟩
      · obtain ⟨next, rest, rfl, hnext⟩ := hstops.next
        exact .inr ⟨raw :: done, e, area, ⟨(hcons done).trans hstops.written, next, rest, rfl, hnext⟩, heval⟩

end Node

/-- An element of a pushed batch that stands for a payload. -/
def PushBody.Reads (text : String) : Prop :=
  ∃ raw p, Hex.decode (Utf8.encode text) = .ok raw ∧ Payload.decode raw = .ok p

theorem PushBody.not_decodes {body : PushBody} {raws : List Bytes} (hraws : body.decode = .ok raws)
    (hbad : ∃ text ∈ body.payloads, ¬ Reads text) : ¬ ∀ raw ∈ raws, ∃ p, Payload.decode raw = .ok p := by
  intro hall
  obtain ⟨text, htext, hreads⟩ := hbad
  obtain ⟨raw, hraw, hhex⟩ := exists_of_mem_forall₂ (mapM_eq_ok_iff.1 hraws) htext
  obtain ⟨p, hp⟩ := hall raw hraw
  exact hreads ⟨raw, p, hhex, hp⟩

namespace Api

open Http (Request)

variable {request : Request} {body : PushBody}

theorem le_statusOf (e : ResendError) : 400 ≤ statusOf e := by
  unfold statusOf
  split <;> decide

theorem statusOf_payload {raw : Bytes} {d : PayloadError} (hp : Payload.decode raw = .error d) :
    statusOf (.payload d) = 400 := by
  unfold Payload.decode at hp
  cases hf : Payload.format.decode raw with
  | ok p =>
    rw [hf] at hp
    exact nomatch hp
  | error f =>
    rw [hf] at hp
    cases hp
    rfl

theorem push_of_fault {n : Node} {f : Hex.Fault} (hbody : readBody PushBody.record request = .ok body)
    (hdecode : body.decode = .error f) :
    push request n = ((Refusal.mk 400 ("invalid hex payload: " ++ f.message)).toResponse, n) := by
  simp only [push, hbody, hdecode]

theorem push_of_error {n n' : Node} {raws : List Bytes} {e : ResendError}
    (hbody : readBody PushBody.record request = .ok body) (hdecode : body.decode = .ok raws)
    (heval : (Node.push raws).eval n = (.error e, n')) : push request n = ((refusalOf e).toResponse, n') := by
  simp only [push, hbody, hdecode, respond, Op.eval_bind_error heval]

/-- A pushed batch with an element that stands for no payload is refused. If one is not even hexadecimal, nothing has
happened. If all are, what was written is there to stay: the payloads before the first element that is none, or fewer
of them if the row that one belongs to does not read back. -/
theorem refused_push (now : String) (n : Node) (hpath : request.path = "/pushBatch") (hmethod : request.method = "POST")
    (hbody : readBody PushBody.record request = .ok body) (hbad : ∃ text ∈ body.payloads, ¬ PushBody.Reads text) :
    ∃ response n', handle now request n = (response, n') ∧ 400 ≤ response.status ∧
      ((∀ raws, body.decode ≠ .ok raws) → response.status = 400 ∧ n' = n) ∧
      ∀ raws, body.decode = .ok raws → ∃ done e area, n.area.Stops raws done e area ∧ n' = { n with area } ∧
        (∀ k, (∀ raw ∈ done, ∀ p, Payload.decode raw = .ok p → k ≠ p.hash.bytes) →
          area.tree.get? k = n.area.tree.get? k) ∧
        done <+: Staging.readable raws ∧ (Staging.readable raws = [] → n' = n) ∧
        (done = Staging.readable raws ∧ response.status = 400 ∨ (∃ d, e = .db d) ∧ response.status = 500) := by
  rw [handle_push now hpath hmethod]
  cases hdecode : body.decode with
  | error f =>
    rw [push_of_fault hbody hdecode]
    exact ⟨_, _, rfl, (by decide : 400 ≤ 400), fun _ => ⟨rfl, rfl⟩, nofun⟩
  | ok raws =>
    rcases Node.push_cases n raws with ⟨area, hall, -⟩ | ⟨done, e, area, hstops, heval⟩
    · exact absurd (Staging.Area.decodes_of_writeAll hall) (PushBody.not_decodes hdecode hbad)
    · rw [push_of_error hbody hdecode heval]
      refine ⟨_, _, rfl, le_statusOf e, fun h => absurd rfl (h raws), fun raws' hraws => ?_⟩
      cases hraws
      obtain ⟨hfront, hcause⟩ := hstops.cases
      refine ⟨done, e, area, hstops, rfl, fun k hk => Staging.Area.get?_of_writeAll hstops.written hk, hfront,
        fun hnone => ?_, ?_⟩
      · have hnil : done = [] := List.prefix_nil.1 (hnone ▸ hfront)
        have hwritten := hstops.written
        rw [hnil] at hwritten
        cases hwritten
        rfl
      · rcases hcause with ⟨hdone, raw, d, hp, rfl⟩ | ⟨d, rfl⟩
        · exact .inl ⟨hdone, statusOf_payload hp⟩
        · exact .inr ⟨⟨d, rfl⟩, rfl⟩

theorem length_halfReadable_le :
    (Utf8.encode (forward (halfReadable.map Hex.encode)).body).length ≤ bodyLimit := by
  rw [length_posted]
  decide +kernel

theorem readBody_halfReadable : readBody PushBody.record (forward (halfReadable.map Hex.encode)) =
    .ok ⟨halfReadable.map Hex.encode⟩ := by
  rw [readBody_posted, if_neg (Nat.not_lt.2 length_halfReadable_le)]

theorem not_reads_halfReadable : ∃ text ∈ halfReadable.map Hex.encode, ¬ PushBody.Reads text := by
  refine ⟨Hex.encode [0], by simp [halfReadable], ?_⟩
  rintro ⟨raw, p, hraw, hp⟩
  have hzero : Hex.decode (Utf8.encode (Hex.encode [0])) = .ok [0] := by decide +kernel
  cases hzero.symm.trans hraw
  have hrefused : (Payload.decode [0]).isOk = false := by decide +kernel
  rw [hp] at hrefused
  exact nomatch hrefused

/-- Of a view and a byte that is no payload the view is kept. -/
theorem refused_push_sample : ∃ response area, handle "" (forward (halfReadable.map Hex.encode)) sampleStart =
    (response, { sampleStart with area }) ∧ 400 ≤ response.status ∧
      ∃ done e, sampleStart.area.Stops halfReadable done e area ∧ done <+: Staging.readable halfReadable := by
  obtain ⟨response, n', heval, hstatus, -, hkept⟩ := refused_push "" sampleStart (path_forward _) rfl
    readBody_halfReadable not_reads_halfReadable
  obtain ⟨done, e, area, hstops, rfl, -, hfront, -⟩ := hkept halfReadable (PushBody.decode_hex _)
  exact ⟨response, area, heval, hstatus, done, e, hstops, hfront⟩

/-- So the staging area is not always what it was before the request. -/
theorem refused_push_leaves_row : ¬ ∀ (now : String) (request : Request) (body : PushBody) (n : Node),
    request.path = "/pushBatch" → request.method = "POST" → readBody PushBody.record request = .ok body →
      (∃ text ∈ body.payloads, ¬ PushBody.Reads text) →
        400 ≤ (handle now request n).1.status ∧ (handle now request n).2.area = n.area := by
  intro hall
  obtain ⟨-, hsame⟩ := hall "" (forward (halfReadable.map Hex.encode)) _ sampleStart (path_forward _) rfl
    readBody_halfReadable not_reads_halfReadable
  have hnode : (handle "" (forward (halfReadable.map Hex.encode)) sampleStart).2 = refusedNode := by
    rw [snd_handle, action_forward length_halfReadable_le]
    rfl
  have hsize : refusedNode.area.size ≠ sampleStart.area.size := by decide +kernel
  rw [hnode] at hsame
  exact hsize (congrArg Staging.Area.size hsame)

end Api

end TxRecovery
