import TxRecovery.Proofs.Wire.Lawful

/-!
# Written forms end by themselves

`Format.Local f`: what the reader takes from the front decides what it answers, so that anything else may
follow there. An exact format is such (`Lawful.local`). Every combinator keeps it, also those that put keys in order,
of which one value has many written forms. A format that is lawful and local writes no value as the beginning
of another (`Lawful.exists_read_eq_error`).
-/

namespace TxRecovery

namespace Wire.Reader

variable {α β : Type}

/-- What was read was read from the bytes in front, whatever follows them. -/
def Local (r : Reader α) : Prop :=
  ∀ bs a rest, r bs = .ok (a, rest) → ∃ used, bs = used ++ rest ∧ ∀ tail, r (used ++ tail) = .ok (a, tail)

theorem local_ok (a : α) : Local fun bs => .ok (a, bs) := by
  intro bs b rest h
  cases h
  exact ⟨[], rfl, fun _ => rfl⟩

theorem local_error (e : Fault) : Local fun _ => (.error e : Except Fault (α × Bytes)) := by
  intro bs a rest h
  exact nomatch h

/-- One reader after another, which may depend on what was read. -/
theorem Local.andThen {r : Reader α} {s : α → Reader β} (hr : Local r) (hs : ∀ a, Local (s a)) :
    Local fun bs => r bs >>= fun x => s x.1 x.2 := by
  intro bs b rest h
  beta_reduce at h ⊢
  cases hread : r bs with
  | error e => rw [hread] at h; exact nomatch h
  | ok x =>
    rw [hread] at h
    obtain ⟨front, rfl, hfront⟩ := hr bs x.1 x.2 hread
    obtain ⟨back, hback, hrest⟩ := hs x.1 x.2 b rest h
    refine ⟨front ++ back, by rw [hback, List.append_assoc], fun tail => ?_⟩
    rw [List.append_assoc, hfront]
    exact hrest tail

theorem local_readExactly (fault : Fault) (n : Nat) : Local (Format.readExactly fault n) := by
  intro bs xs rest h
  obtain ⟨rfl, hbs⟩ := Format.readExactly_eq_ok h
  exact ⟨xs, hbs, Format.readExactly_append fault xs⟩

end Wire.Reader

open Wire (Reader)

namespace Format

variable {α β : Type} {f : Format α} {g : Format β} {P : α → Prop}

/-- The written form ends by itself. -/
def Local (f : Format α) : Prop := Reader.Local f.read

/-- A written form that is cut short does not read. -/
theorem Lawful.exists_read_eq_error (hf : f.Lawful P) (hl : f.Local) {a : α} (ha : P a) {bs : Bytes}
    (hbs : bs <+: f.write a) (hne : bs ≠ f.write a) : ∃ e, f.read bs = .error e := by
  obtain ⟨cut, hcut⟩ := hbs
  cases hr : f.read bs with
  | error e => exact ⟨e, rfl⟩
  | ok r =>
    obtain ⟨used, rfl, hused⟩ := hl bs r.1 r.2 hr
    -- what was read from the part reads from the whole, with the cut left over
    have hpart := hused (r.2 ++ cut)
    have hwhole := hf a ha []
    rw [← List.append_assoc, hcut] at hpart
    rw [List.append_nil, hpart, Except.ok.injEq, Prod.mk.injEq, List.append_eq_nil_iff] at hwhole
    obtain ⟨-, -, rfl⟩ := hwhole
    exact absurd ((List.append_nil _).symm.trans hcut) hne

/-- What is written as it was read reads back, whatever follows. -/
theorem Lawful.local (hf : f.Lawful P) (hx : f.Exact P) : f.Local := by
  intro bs a rest h
  obtain ⟨ha, hbs⟩ := hx bs a rest h
  exact ⟨f.write a, hbs, hf a ha⟩

theorem uint_local (n : Nat) : (uint n).Local := (uint_lawful n).local (uint_exact n)

theorem read_text : text.read = fun bs => (uint 8).read bs >>= fun x =>
    readExactly .endOfText x.1 x.2 >>= fun y => ((Utf8.decode y.1).mapError Wire.Fault.text).map fun s => (s, y.2) := by
  funext bs
  unfold text
  refine bind_congr fun (_, _) => bind_congr fun (raw, _) => ?_
  cases h : Utf8.decode raw <;> simp only [h] <;> rfl

theorem text_local : text.Local := by
  have hdecode : ∀ raw, Reader.Local fun rest =>
      ((Utf8.decode raw).mapError Wire.Fault.text).map fun s => (s, rest) := by
    intro raw
    cases Utf8.decode raw with
    | error f => exact Reader.local_error (.text f)
    | ok s => exact Reader.local_ok s
  rw [Local, read_text]
  exact (uint_local 8).andThen fun n => (Reader.local_readExactly .endOfText n).andThen hdecode

theorem Local.pair (hf : f.Local) (hg : g.Local) : (f.pair g).Local :=
  hf.andThen fun a => hg.andThen fun b => Reader.local_ok (a, b)

theorem Local.convert (hf : f.Local) (toWire : β → α) (ofWire : α → β) : (f.convert toWire ofWire).Local :=
  hf.andThen fun a => Reader.local_ok (ofWire a)

theorem Local.readMany (hf : f.Local) (n : Nat) : Reader.Local (Format.readMany f n) := by
  induction n with
  | zero => exact Reader.local_ok []
  | succ n ih => exact hf.andThen fun a => ih.andThen fun as => Reader.local_ok (a :: as)

theorem Local.list (hf : f.Local) : (Format.list f).Local :=
  (uint_local 8).andThen hf.readMany

theorem Local.option (hf : f.Local) : (Format.option f).Local := by
  intro bs o rest h
  cases bs with
  | nil => exact nomatch h
  | cons tag bs =>
    by_cases h0 : tag = 0
    · subst h0
      cases h
      exact ⟨[0], rfl, fun _ => rfl⟩
    by_cases h1 : tag = 1
    · subst h1
      obtain ⟨used, rfl, hused⟩ := hf.andThen (fun a => Reader.local_ok (some a)) bs o rest h
      exact ⟨1 :: used, rfl, hused⟩
    · simp only [Format.option, if_neg h0, if_neg h1] at h
      exact nomatch h

section Sorted

variable [Ord α] [Std.TransOrd α] [Std.LawfulEqOrd α]

theorem Local.sortedMap (hf : f.Local) (hg : g.Local) : (Format.sortedMap f g).Local :=
  (hf.pair hg).list.convert SortedMap.entries SortedMap.ofList

theorem Local.sortedSet (hf : f.Local) : (Format.sortedSet f).Local :=
  hf.list.convert SortedSet.toList SortedSet.ofList

end Sorted

end Format

end TxRecovery
