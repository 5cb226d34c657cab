import Mathlib.Data.List.DropRight
import TxRecovery.Key
import TxRecovery.Proofs.Text.Armor

/-!
# Texts that name keys

A reader of keys accepts what a writer writes, and nothing else but for blanks at the ends and, in hexadecimal, the
case of the letters (`PublicKey.texts_name_keys`). So two texts name one key only if they agree between their blanks.
-/

namespace TxRecovery

namespace Text

/-- `t` is `s` without the blanks at its ends. -/
def Stripped (s t : String) : Prop :=
  ∃ front back, s.toList = front ++ t.toList ++ back ∧ (∀ c ∈ front ++ back, isBlank c = true) ∧
    (∀ c ∈ t.toList.head?, isBlank c = false) ∧ ∀ c ∈ t.toList.getLast?, isBlank c = false

theorem head?_dropWhile {cs : List Char} {c : Char} (hc : c ∈ (cs.dropWhile isBlank).head?) : isBlank c = false := by
  have hdrop := List.head?_dropWhile_not isBlank cs
  rw [hc] at hdrop
  exact hdrop

theorem dropWhile_of_head? {cs : List Char} (h : ∀ c ∈ cs.head?, isBlank c = false) : cs.dropWhile isBlank = cs := by
  cases cs with
  | nil => rfl
  | cons c cs => exact List.dropWhile_cons_of_neg (by simp [h c rfl])

theorem trim_prefix (cs : List Char) : trim cs <+: cs.dropWhile isBlank := List.rdropWhile_prefix _ _

theorem stripped_iff {s t : String} : Stripped s t ↔ trim s.toList = t.toList := by
  constructor
  · rintro ⟨front, back, hs, hblank, hhead, hlast⟩
    obtain ⟨hfront, hback⟩ := List.forall_mem_append.1 hblank
    rw [hs, List.append_assoc, trim, List.dropWhile_append_of_pos hfront]
    cases ht : t.toList with
    | nil =>
      rw [List.nil_append, List.dropWhile_eq_nil_iff.2 hback]
      rfl
    | cons c cs =>
      -- the text that is left stops the trimming at either end
      rw [ht] at hhead hlast
      have hhead' : ∀ d ∈ (c :: cs ++ back).head?, isBlank d = false := hhead
      have hlast' : ∀ d ∈ (c :: cs).reverse.head?, isBlank d = false := by
        rw [List.head?_reverse]
        exact hlast
      rw [dropWhile_of_head? hhead', List.reverse_append,
        List.dropWhile_append_of_pos fun d hd => hback d (List.mem_reverse.1 hd), dropWhile_of_head? hlast',
        List.reverse_reverse]
  · intro h
    refine ⟨s.toList.takeWhile isBlank, (s.toList.dropWhile isBlank).rtakeWhile isBlank, ?_, ?_, ?_, ?_⟩
    · rw [← h, List.append_assoc]
      show _ = _ ++ ((s.toList.dropWhile isBlank).rdropWhile isBlank ++ _)
      rw [List.rdropWhile_append_rtakeWhile, List.takeWhile_append_dropWhile]
    · rw [List.forall_mem_append]
      exact ⟨fun c hc => List.mem_takeWhile_imp hc, fun c hc => List.mem_rtakeWhile_imp hc⟩
    · intro c hc
      obtain ⟨rest, hrest⟩ := trim_prefix s.toList
      have hhead : c ∈ (s.toList.dropWhile isBlank).head? := by
        rw [← hrest, h, List.head?_append, hc]
        rfl
      exact head?_dropWhile hhead
    · intro c hc
      rw [← h, trim, List.getLast?_reverse] at hc
      exact head?_dropWhile hc

theorem stripped_self {s : String} (h : ∀ c ∈ s.toList, isBlank c = false) : Stripped s s :=
  ⟨[], [], by simp, List.forall_mem_nil _, fun c hc => h c (List.mem_of_head? hc),
    fun c hc => h c (List.mem_of_getLast? hc)⟩

theorem trimmedBytes_eq_iff {s t : String} : trimmedBytes s = Utf8.encode t ↔ Stripped s t := by
  rw [stripped_iff]
  exact ⟨Utf8.encodeChars_injective, congrArg Utf8.encodeChars⟩

theorem exists_stripped (s : String) : ∃ t, Stripped s t ∧ trimmedBytes s = Utf8.encode t := by
  have hs : Stripped s (String.ofList (trim s.toList)) := stripped_iff.2 (String.toList_ofList).symm
  exact ⟨_, hs, trimmedBytes_eq_iff.2 hs⟩

end Text

namespace PublicKey

variable {s : String} {k : PublicKey}

theorem ofBytes_eq_ok {bs : Bytes} : ofBytes bs = .ok k ↔ bs = k.bytes := by
  obtain ⟨block⟩ := k
  rw [bytes, ← Block.ofBytes?_eq_some_iff, ofBytes]
  cases Block.ofBytes? 32 bs with
  | none => exact iff_of_false (fun h => by cases h) (fun h => by cases h)
  | some b => rw [Except.ok.injEq, Option.some.injEq, mk.injEq]

theorem ofBase64_eq_ok : ofBase64 s = .ok k ↔ Text.Stripped s k.toBase64 := by
  unfold ofBase64
  simp only [bind_eq_ok, mapError_eq_ok, ofBytes_eq_ok, exists_eq_right]
  rw [Base64.decode_eq_ok, ← Base64.utf8_encode, ← Text.trimmedBytes_eq_iff]
  rfl

theorem ofBase64_toBase64 (k : PublicKey) : ofBase64 k.toBase64 = .ok k := by
  refine ofBase64_eq_ok.2 (Text.stripped_self fun c hc => ?_)
  rw [toBase64, Base64.encode, String.toList_ofList] at hc
  obtain ⟨b, hb, rfl⟩ := List.mem_map.1 hc
  exact (Base64.visible_encodeBytes k.bytes b hb).2

theorem ofHex_eq_ok : ofHex s = .ok k ↔ ∃ t, Text.Stripped s t ∧ Text.lower t = k.toHex := by
  -- the reader sees the bytes of what trimming leaves, which is one text
  have hread : ∀ t, Text.Stripped s t → (ofHex s = .ok k ↔ Text.lower t = k.toHex) := by
    intro t ht
    unfold ofHex
    simp only [bind_eq_ok, mapError_eq_ok, ofBytes_eq_ok, exists_eq_right]
    rw [Text.trimmedBytes_eq_iff.2 ht, Hex.decode_eq_ok, ← Utf8.encode_lower, ← Hex.utf8_encode]
    exact ⟨Utf8.encode_injective, congrArg _⟩
  obtain ⟨t, ht, -⟩ := Text.exists_stripped s
  constructor
  · intro h
    exact ⟨t, ht, (hread t ht).1 h⟩
  · rintro ⟨t, ht, hlower⟩
    exact (hread t ht).2 hlower

/-- A text names a key in base64 exactly if it is the text of the key, with blanks around it, and in hexadecimal if it
is so in either case. -/
theorem texts_name_keys (s : String) (k : PublicKey) :
    (ofBase64 s = .ok k ↔ Text.Stripped s k.toBase64) ∧
    (ofHex s = .ok k ↔ ∃ t, Text.Stripped s t ∧ Text.lower t = k.toHex) :=
  ⟨ofBase64_eq_ok, ofHex_eq_ok⟩

end PublicKey

end TxRecovery
