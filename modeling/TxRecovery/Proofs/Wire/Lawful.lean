import TxRecovery.Proofs.Collections
import TxRecovery.Wire.Format

/-!
# Laws of binary formats

`Format.Lawful f P`: reading undoes writing for every value with `P`, whatever bytes follow.
`Format.Exact f P`: what is read has `P`, and is written in the bytes it was read from. A format that
puts keys in order is not exact, but `Format.Compact f P`: what is read is written in no more bytes.
Each combinator keeps these, so a composite format is lawful for the values whose lengths, counts and
integers fit in their fields, and a value that was read is one of those.
-/

namespace TxRecovery

theorem Bytes.toNatLE_lt (bs : Bytes) : Bytes.toNatLE bs < Nat.pow 256 bs.length := by
  induction bs with
  | nil => exact Nat.one_pos
  | cons b bs ih =>
    have hb : b.toNat < 256 := b.toNat_lt
    have hpow : Nat.pow 256 (bs.length + 1) = Nat.pow 256 bs.length * 256 := rfl
    rw [Bytes.toNatLE, List.length_cons, hpow]
    omega

theorem Bytes.littleEndian_toNatLE (bs : Bytes) : Bytes.littleEndian bs.length (Bytes.toNatLE bs) = bs := by
  induction bs with
  | nil => rfl
  | cons b bs ih =>
    have hb : b.toNat < 256 := b.toNat_lt
    have hlow : UInt8.ofNat (b.toNat + 256 * Bytes.toNatLE bs) = b := by
      apply UInt8.toNat_inj.1
      simp only [UInt8.toNat_ofNat']
      omega
    have hhigh : (b.toNat + 256 * Bytes.toNatLE bs) / 256 = Bytes.toNatLE bs := by omega
    rw [Bytes.toNatLE, List.length_cons, Bytes.littleEndian, hlow, hhigh, ih]

namespace Format

variable {α β γ : Type} {f : Format α} {g : Format β} {P : α → Prop} {Q : β → Prop}

/-- Reading undoes writing for the values with `P`. -/
def Lawful (f : Format α) (P : α → Prop) : Prop :=
  ∀ a, P a → ∀ rest, f.read (f.write a ++ rest) = .ok (a, rest)

/-- What is read has `P` and is written as it was read. -/
def Exact (f : Format α) (P : α → Prop) : Prop :=
  ∀ bs a rest, f.read bs = .ok (a, rest) → P a ∧ bs = f.write a ++ rest

/-- What is read has `P` and takes no more bytes to write. -/
structure Compact (f : Format α) (P : α → Prop) : Prop where
  fits : ∀ {bs a rest}, f.read bs = .ok (a, rest) → P a
  length_le : ∀ {bs a rest}, f.read bs = .ok (a, rest) →
    (f.write a).length + rest.length ≤ bs.length

theorem Lawful.mono {P' : α → Prop} (hf : f.Lawful P) (h : ∀ a, P' a → P a) : f.Lawful P' :=
  fun a ha rest => hf a (h a ha) rest

theorem Exact.mono {P' : α → Prop} (hf : f.Exact P) (h : ∀ a, P a → P' a) : f.Exact P' :=
  fun bs a rest hr => ⟨h a (hf bs a rest hr).1, (hf bs a rest hr).2⟩

theorem Exact.compact (hf : f.Exact P) : f.Compact P := by
  refine ⟨fun h => (hf _ _ _ h).1, fun h => ?_⟩
  obtain ⟨-, rfl⟩ := hf _ _ _ h
  exact Nat.le_of_eq List.length_append.symm

theorem Lawful.decode_write (hf : f.Lawful P) {a : α} (ha : P a) : f.decode (f.write a) = .ok a := by
  have h := hf a ha []
  rw [List.append_nil] at h
  rw [decode, h]
  rfl

theorem Lawful.write_inj (hf : f.Lawful P) {a b : α} (ha : P a) (hb : P b) : f.write a = f.write b ↔ a = b := by
  refine ⟨fun h => ?_, congrArg f.write⟩
  have h1 := hf a ha []
  rw [h, hf b hb []] at h1
  cases h1
  rfl

theorem read_of_decode {bs : Bytes} {a : α} (h : f.decode bs = .ok a) :
    ∃ rest, f.read bs = .ok (a, rest) := by
  unfold decode at h
  cases hr : f.read bs with
  | error e => rw [hr] at h; exact nomatch h
  | ok r =>
    rw [hr] at h
    cases h
    exact ⟨r.2, rfl⟩

theorem Compact.fits_of_decode (hf : f.Compact P) {bs : Bytes} {a : α} (h : f.decode bs = .ok a) :
    P a :=
  let ⟨_, hr⟩ := read_of_decode h
  hf.fits hr

theorem Compact.length_write_le (hf : f.Compact P) {bs : Bytes} {a : α} (h : f.decode bs = .ok a) :
    (f.write a).length ≤ bs.length := by
  obtain ⟨rest, hr⟩ := read_of_decode h
  have := hf.length_le hr
  omega

/-! ### Leaves -/

theorem readExactly_append (fault : Wire.Fault) (xs ys : Bytes) :
    readExactly fault xs.length (xs ++ ys) = .ok (xs, ys) := by
  rw [readExactly, Bytes.splitExactly?_append]

theorem readExactly_eq_ok {fault : Wire.Fault} {n : Nat} {bs xs ys : Bytes}
    (h : readExactly fault n bs = .ok (xs, ys)) : xs.length = n ∧ bs = xs ++ ys := by
  unfold readExactly at h
  split at h
  · rename_i r hr
    cases h
    exact Bytes.splitExactly?_eq_some hr
  · exact nomatch h

theorem uint_lawful (n : Nat) : (uint n).Lawful (· < Nat.pow 256 n) := by
  intro v hv rest
  have h := readExactly_append .endOfInput (Bytes.littleEndian n v) rest
  rw [Bytes.length_littleEndian] at h
  simp only [uint, h, bind, Except.bind, Bytes.toNatLE_littleEndian hv]

theorem uint_exact (n : Nat) : (uint n).Exact (· < Nat.pow 256 n) := by
  intro bs v rest h
  simp only [uint, bind, Except.bind] at h
  split at h
  · exact nomatch h
  · rename_i r hr
    cases h
    obtain ⟨rfl, hbs⟩ := readExactly_eq_ok hr
    refine ⟨Bytes.toNatLE_lt r.1, ?_⟩
    simp only [uint, hbs, Bytes.littleEndian_toNatLE]

theorem block_lawful (n : Nat) : (block n).Lawful fun _ => True := by
  intro b _ rest
  have h := readExactly_append .endOfInput b.toList rest
  rw [b.length_toList] at h
  simp only [block, h, bind, Except.bind, Block.ofBytes?_toList]

theorem block_exact (n : Nat) : (block n).Exact fun _ => True := by
  intro bs b rest h
  simp only [block, bind, Except.bind] at h
  split at h
  · exact nomatch h
  · rename_i r hr
    obtain ⟨-, rfl⟩ := readExactly_eq_ok hr
    split at h
    · rename_i hb
      cases h
      rw [Block.ofBytes?_eq_some_iff] at hb
      exact ⟨trivial, by simp only [block, hb]⟩
    · exact nomatch h

theorem bytes_lawful : bytes.Lawful (·.length < UInt64.size) := by
  intro bs h rest
  have hn := uint_lawful 8 bs.length h (bs ++ rest)
  simp only [bytes, List.append_assoc, hn, bind, Except.bind]
  exact readExactly_append .endOfInput bs rest

theorem bytes_exact : bytes.Exact (·.length < UInt64.size) := by
  intro bs raw rest h
  simp only [bytes, bind, Except.bind] at h
  split at h
  · exact nomatch h
  · rename_i r hr
    obtain ⟨hn, hrest⟩ := readExactly_eq_ok h
    obtain ⟨hlt, hbs⟩ := uint_exact 8 _ _ _ hr
    rw [← hn] at hlt
    exact ⟨hlt, by simp only [bytes, hbs, hrest, hn, List.append_assoc]⟩

theorem text_lawful :
    text.Lawful fun s => (Utf8.encode s).length < UInt64.size ∧ Utf8.decode (Utf8.encode s) = .ok s := by
  intro s ⟨hlt, hs⟩ rest
  have hn := uint_lawful 8 (Utf8.encode s).length hlt (Utf8.encode s ++ rest)
  have hr := readExactly_append .endOfText (Utf8.encode s) rest
  simp only [text, bytes, List.append_assoc, hn, hr, hs, bind, Except.bind]

theorem variant_lawful [BEq α] [LawfulBEq α] (all : List α) (h : all.length < Nat.pow 256 4) :
    (variant all).Lawful (· ∈ all) := by
  intro a ha rest
  have hi := List.idxOf_lt_length_of_mem ha
  have hn := uint_lawful 4 (all.idxOf a) (Nat.lt_trans hi h) rest
  simp only [variant, hn, bind, Except.bind, List.getElem?_eq_getElem hi, List.getElem_idxOf hi]

theorem variant_exact [BEq α] [LawfulBEq α] {all : List α} (hall : all.Nodup) : (variant all).Exact (· ∈ all) := by
  intro bs a rest h
  simp only [variant, bind, Except.bind] at h
  split at h
  · exact nomatch h
  · rename_i r hr
    obtain ⟨-, hbs⟩ := uint_exact 4 _ _ _ hr
    split at h
    · rename_i b hb
      cases h
      obtain ⟨hi, rfl⟩ := List.getElem?_eq_some_iff.1 hb
      exact ⟨List.getElem_mem hi, by simp only [variant, hbs, hall.idxOf_getElem r.1 hi]⟩
    · exact nomatch h

/-! ### Combinators -/

theorem Lawful.pair (hf : f.Lawful P) (hg : g.Lawful Q) :
    (f.pair g).Lawful fun x => P x.1 ∧ Q x.2 := by
  intro x ⟨hx, hy⟩ rest
  have h1 := hf x.1 hx (g.write x.2 ++ rest)
  have h2 := hg x.2 hy rest
  simp only [Format.pair, List.append_assoc, h1, h2, bind, Except.bind]

theorem pair_read_eq_ok {bs : Bytes} {x : α × β} {rest : Bytes}
    (h : (f.pair g).read bs = .ok (x, rest)) :
    ∃ mid, f.read bs = .ok (x.1, mid) ∧ g.read mid = .ok (x.2, rest) := by
  simp only [Format.pair, bind, Except.bind] at h
  split at h
  · exact nomatch h
  · rename_i r hr
    split at h
    · exact nomatch h
    · rename_i r' hr'
      cases h
      exact ⟨r.2, hr, hr'⟩

theorem Exact.pair (hf : f.Exact P) (hg : g.Exact Q) : (f.pair g).Exact fun x => P x.1 ∧ Q x.2 := by
  intro bs x rest h
  obtain ⟨mid, h1, h2⟩ := pair_read_eq_ok h
  obtain ⟨hP, rfl⟩ := hf _ _ _ h1
  obtain ⟨hQ, rfl⟩ := hg _ _ _ h2
  exact ⟨⟨hP, hQ⟩, by simp only [Format.pair, List.append_assoc]⟩

theorem Lawful.convert {toWire : β → α} {ofWire : α → β} (hf : f.Lawful P) :
    (f.convert toWire ofWire).Lawful fun b => P (toWire b) ∧ ofWire (toWire b) = b := by
  intro b ⟨hb, hinv⟩ rest
  simp only [Format.convert, hf (toWire b) hb rest, bind, Except.bind, hinv]

theorem convert_read {toWire : β → α} {ofWire : α → β} (bs : Bytes) :
    (f.convert toWire ofWire).read bs = (f.read bs).map fun r => (ofWire r.1, r.2) := by
  simp only [Format.convert, bind, Except.bind]
  cases f.read bs <;> rfl

theorem convert_read_eq_ok {toWire : β → α} {ofWire : α → β} {bs : Bytes} {b : β} {rest : Bytes}
    (h : (f.convert toWire ofWire).read bs = .ok (b, rest)) : ∃ a, f.read bs = .ok (a, rest) ∧ b = ofWire a := by
  rw [convert_read] at h
  cases hr : f.read bs with
  | error e => rw [hr] at h; exact nomatch h
  | ok r =>
    rw [hr] at h
    cases h
    exact ⟨r.1, rfl, rfl⟩

/-- Values that stand for one another: `toWire` undoes `ofWire` up to a shorter form. -/
theorem Compact.convert {toWire : β → α} {ofWire : α → β} (hf : f.Compact P)
    (hfit : ∀ a, P a → Q (ofWire a))
    (hlen : ∀ a, (f.write (toWire (ofWire a))).length ≤ (f.write a).length) :
    (f.convert toWire ofWire).Compact Q := by
  refine ⟨fun h => ?_, fun h => ?_⟩
  · obtain ⟨a, ha, rfl⟩ := convert_read_eq_ok h
    exact hfit a (hf.fits ha)
  · obtain ⟨a, ha, rfl⟩ := convert_read_eq_ok h
    exact Nat.le_trans (Nat.add_le_add_right (hlen a) _) (hf.length_le ha)

theorem Exact.convert {toWire : β → α} {ofWire : α → β} (hf : f.Exact P) (hfit : ∀ a, P a → Q (ofWire a))
    (hinv : ∀ a, toWire (ofWire a) = a) : (f.convert toWire ofWire).Exact Q := by
  intro bs b rest h
  obtain ⟨a, ha, rfl⟩ := convert_read_eq_ok h
  obtain ⟨hP, rfl⟩ := hf _ _ _ ha
  exact ⟨hfit a hP, by simp only [Format.convert, hinv]⟩

theorem pair_convert (f : Format α) (g : Format β) (toWire : γ → β) (ofWire : β → γ) :
    f.pair (g.convert toWire ofWire) = (f.pair g).convert (Prod.map id toWire) (Prod.map id ofWire) := by
  simp only [pair, convert, Prod.map, id_eq, mk.injEq, true_and]
  funext bs
  simp only [bind_assoc]
  rfl

theorem convert_pair (f : Format α) (g : Format β) (toWire : γ → α) (ofWire : α → γ) :
    (f.convert toWire ofWire).pair g = (f.pair g).convert (Prod.map toWire id) (Prod.map ofWire id) := by
  simp only [pair, convert, Prod.map, id_eq, mk.injEq, true_and]
  funext bs
  simp only [bind_assoc]
  rfl

theorem convert_convert (f : Format α) (toWire : β → α) (ofWire : α → β) (toWire' : γ → β) (ofWire' : β → γ) :
    (f.convert toWire ofWire).convert toWire' ofWire' = f.convert (toWire ∘ toWire') (ofWire' ∘ ofWire) := by
  simp only [convert, mk.injEq, Function.comp_apply, true_and]
  funext bs
  simp only [bind_assoc]
  rfl

theorem Lawful.readMany (hf : f.Lawful P) {as : List α} (h : ∀ a ∈ as, P a) (rest : Bytes) :
    Format.readMany f as.length (as.flatMap f.write ++ rest) = .ok (as, rest) := by
  induction as with
  | nil => rfl
  | cons a as ih =>
    have h1 := hf a (h a List.mem_cons_self) (as.flatMap f.write ++ rest)
    have h2 := ih fun b hb => h b (List.mem_cons_of_mem _ hb)
    simp only [List.length_cons, Format.readMany, List.flatMap_cons, List.append_assoc, h1, h2, bind,
      Except.bind]

theorem Lawful.list (hf : f.Lawful P) :
    (Format.list f).Lawful fun as => as.length < UInt64.size ∧ ∀ a ∈ as, P a := by
  intro as ⟨hlen, has⟩ rest
  have hn := uint_lawful 8 as.length hlen (as.flatMap f.write ++ rest)
  simp only [Format.list, List.append_assoc, hn, bind, Except.bind]
  exact hf.readMany has rest

theorem Exact.readMany (hf : f.Exact P) {n : Nat} {bs : Bytes} {as : List α} {rest : Bytes}
    (h : Format.readMany f n bs = .ok (as, rest)) :
    as.length = n ∧ (∀ a ∈ as, P a) ∧ bs = as.flatMap f.write ++ rest := by
  induction n generalizing bs as with
  | zero =>
    cases h
    simp
  | succ n ih =>
    simp only [Format.readMany, bind, Except.bind] at h
    split at h
    · exact nomatch h
    · rename_i r hr
      split at h
      · exact nomatch h
      · rename_i r' hr'
        cases h
        obtain ⟨hn, hPs, hmid⟩ := ih hr'
        obtain ⟨hP, hbs⟩ := hf _ _ _ hr
        refine ⟨by rw [List.length_cons, hn], List.forall_mem_cons.2 ⟨hP, hPs⟩, ?_⟩
        rw [hbs, hmid, List.flatMap_cons, List.append_assoc]

theorem Exact.list (hf : f.Exact P) :
    (Format.list f).Exact fun as => as.length < UInt64.size ∧ ∀ a ∈ as, P a := by
  intro bs as rest h
  simp only [Format.list, bind, Except.bind] at h
  split at h
  · exact nomatch h
  · rename_i r hr
    obtain ⟨hn, hPs, hmid⟩ := hf.readMany h
    obtain ⟨hlt, hbs⟩ := uint_exact 8 _ _ _ hr
    rw [← hn] at hlt
    exact ⟨⟨hlt, hPs⟩, by simp only [Format.list, hbs, hmid, hn, List.append_assoc]⟩

theorem Lawful.option (hf : f.Lawful P) : (Format.option f).Lawful fun o => ∀ a ∈ o, P a := by
  intro o ho rest
  cases o with
  | none => rfl
  | some a =>
    have h := hf a (ho a rfl) rest
    simp [Format.option, h, bind, Except.bind]

theorem length_write_bytes (bs : Bytes) : (bytes.write bs).length = 8 + bs.length := by
  simp only [bytes, uint, List.length_append, Bytes.length_littleEndian]

theorem length_write_list (f : Format α) (as : List α) :
    ((Format.list f).write as).length = 8 + (as.map fun a => (f.write a).length).sum := by
  simp only [Format.list, uint, List.length_append, Bytes.length_littleEndian, List.length_flatMap]

section Sorted

variable [Ord α] [Std.TransOrd α] [Std.LawfulEqOrd α]

theorem Lawful.sortedMap (hf : f.Lawful P) (hg : g.Lawful Q) :
    (Format.sortedMap f g).Lawful fun m => m.size < UInt64.size ∧ ∀ e ∈ m.entries, P e.1 ∧ Q e.2 :=
  (hf.pair hg).list.convert.mono fun m h => ⟨h, SortedMap.ofList_entries m⟩

theorem Lawful.sortedSet (hf : f.Lawful P) :
    (Format.sortedSet f).Lawful fun s => s.toList.length < UInt64.size ∧ ∀ a ∈ s.toList, P a :=
  hf.list.convert.mono fun s h => ⟨h, SortedSet.ofList_toList s⟩

end Sorted

end Format

end TxRecovery
