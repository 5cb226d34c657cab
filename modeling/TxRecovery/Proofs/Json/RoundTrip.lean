import Mathlib.Tactic.SplitIfs
import TxRecovery.Json.Shape
import TxRecovery.Json.Value

/-!
# Written JSON reads back

The text of every value that a node writes parses to what was written: `Value.parse_render`. A text of JSON
ends by itself but for numbers, which go on as long as digits follow; so values are read up to the end of the
text or up to what comes behind a value in an array or an object (`Closes`). The reader takes fuel for
each bracket and item, of which the text has enough (`parseValue_chars`). Lists and records of one field are
then read from what was written for them (`Reading.list_tree`, `Record.read_object`).
-/

namespace TxRecovery

namespace Json

/-! ### Strings -/

theorem fourHex?_control : ∀ v : Fin 32,
    fourHex? '0' '0' (Nat.digitChar (v.val / 16)) (Nat.digitChar (v.val % 16)) = some v.val := by
  decide

theorem scanString_control {c : Char} (hc : c.toNat < 0x20) (done rest : List Char) :
    scanString done none none
        ('\\' :: 'u' :: '0' :: '0' :: Nat.digitChar (c.toNat / 16) :: Nat.digitChar (c.toNat % 16) :: rest) =
      scanString (c :: done) none none rest := by
  have hhex : fourHex? '0' '0' (Nat.digitChar (c.toNat / 16)) (Nat.digitChar (c.toNat % 16)) = some c.toNat :=
    fourHex?_control ⟨c.toNat, hc⟩
  have hlow : isLow c.toNat = false := by
    simp only [isLow, Bool.and_eq_false_iff, decide_eq_false_iff_not]
    omega
  have hhigh : isHigh c.toNat = false := by
    simp only [isHigh, Bool.and_eq_false_iff, decide_eq_false_iff_not]
    omega
  rw [scanString.eq_def]
  simp only [hhex, hlow, hhigh, Bool.false_eq_true, if_false, Char.ofNat_toNat]

theorem scanString_plain {c : Char} (hquote : c ≠ '"') (hslash : c ≠ '\\') (hc : ¬ c.toNat < 0x20)
    (done rest : List Char) : scanString done none none (c :: rest) = scanString (c :: done) none none rest := by
  rw [scanString]
  · simp [hc]
  all_goals simp_all

/-- A character is read from its escape. -/
theorem scanString_escape (c : Char) (done rest : List Char) :
    scanString done none none (Value.escape c ++ rest) = scanString (c :: done) none none rest := by
  unfold Value.escape
  split_ifs with h1 h2 h3 h4 h5 h6 h7 h8
  rotate_left 7
  · exact scanString_control h8 done rest
  · exact scanString_plain h1 h2 h8 done rest
  -- the others have an escape of one letter
  all_goals
    subst_vars
    simp [scanString, shortEscape?]

theorem scanString_escapes (cs done rest : List Char) :
    scanString done none none (cs.flatMap Value.escape ++ '"' :: rest) =
      .ok (.ok (String.ofList (done.reverse ++ cs)), rest) := by
  induction cs generalizing done with
  | nil => simp [scanString]
  | cons c cs ih =>
    rw [List.flatMap_cons, List.append_assoc, scanString_escape, ih, List.reverse_cons, List.append_assoc,
      List.singleton_append]

theorem parseString_quoted (s : String) (rest : List Char) :
    parseString (s.toList.flatMap Value.escape ++ '"' :: rest) = .ok (.ok s, rest) := by
  rw [parseString, scanString_escapes, List.reverse_nil, List.nil_append, String.ofList_toList]

/-! ### Numbers -/

/-- The text ends here, or a container goes on or ends. -/
def Closes (rest : List Char) : Prop := ∀ c ∈ rest.head?, c = ',' ∨ c = ']' ∨ c = '\x7d'

theorem closes_nil : Closes [] := nofun

theorem closes_cons {c : Char} (hc : c = ',' ∨ c = ']' ∨ c = '\x7d') (rest : List Char) : Closes (c :: rest) := by
  intro d hd
  cases hd
  exact hc

theorem digitsOf_append {ds rest : List Char} (hds : ∀ c ∈ ds, c.isDigit = true) (hrest : Closes rest) :
    digitsOf (ds ++ rest) = (ds.map fun c => c.toNat - 48, rest) := by
  have hstop : rest.takeWhile Char.isDigit = [] ∧ rest.dropWhile Char.isDigit = rest := by
    cases rest with
    | nil => exact ⟨rfl, rfl⟩
    | cons c rest =>
      have hc : c.isDigit = false := by
        rcases hrest c rfl with rfl | rfl | rfl <;> rfl
      simp only [List.takeWhile_cons, List.dropWhile_cons, hc, Bool.false_eq_true, if_false, true_and]
  rw [digitsOf, List.takeWhile_append_of_pos hds, List.dropWhile_append_of_pos hds, hstop.1, hstop.2, List.append_nil]

/-- Only zero is written with a zero in front. -/
theorem eq_nil_of_toDigits {n : Nat} {ds : List Char} (h : Nat.toDigits 10 n = '0' :: ds) : ds = [] := by
  induction n using Nat.strongRecOn generalizing ds with
  | _ n ih =>
    by_cases hn : n < 10
    · rw [Nat.toDigits_of_lt_base hn] at h
      exact (List.cons.inj h).2.symm
    · rw [Nat.toDigits_of_base_le (by decide) (Nat.le_of_not_lt hn)] at h
      obtain ⟨front, hfront⟩ : ∃ front, Nat.toDigits 10 (n / 10) = '0' :: front := by
        cases hq : Nat.toDigits 10 (n / 10) with
        | nil => exact absurd hq Nat.toDigits_ne_nil
        | cons c front =>
          rw [hq] at h
          exact ⟨front, congrArg (· :: front) (List.cons.inj h).1⟩
      have hzero := Nat.ofDigitChars_ten_toDigits (n := n / 10)
      rw [hfront, ih (n / 10) (by omega) hfront] at hzero
      have hquotient : 0 = n / 10 := hzero
      omega

theorem digits_toDigits (n : Nat) : ∀ c ∈ Nat.toDigits 10 n, c.isDigit = true := fun _ hc =>
  Nat.isDigit_of_mem_toDigits (by decide) (by decide) hc

/-- The number that is written for `n`. -/
def wholeNumber (n : Nat) : Number := ⟨false, (Nat.toDigits 10 n).map fun c => c.toNat - 48, [], none⟩

theorem toDigits_cases (n : Nat) : ∃ c ds, Nat.toDigits 10 n = c :: ds ∧ c.isDigit = true := by
  cases h : Nat.toDigits 10 n with
  | nil => exact absurd h Nat.toDigits_ne_nil
  | cons c ds => exact ⟨c, ds, rfl, digits_toDigits n c (h ▸ List.mem_cons_self)⟩

theorem eq_zero_of_isDigit {c : Char} (hc : c.isDigit = true) (h : c.toNat - 48 = 0) : c = '0' := by
  have hle : 48 ≤ c.toNat := by
    simp only [Char.isDigit, Bool.and_eq_true, decide_eq_true_eq] at hc
    exact hc.1
  have hnat : c.toNat = 48 := by omega
  rw [← Char.ofNat_toNat c, hnat]

theorem scanWhole_toDigits (n : Nat) {rest : List Char} (hrest : Closes rest) :
    scanWhole (Nat.toDigits 10 n ++ rest) = .ok ((wholeNumber n).whole, rest) := by
  obtain ⟨c, ds, hdigits, hc⟩ := toDigits_cases n
  rw [scanWhole, digitsOf_append (digits_toDigits n) hrest]
  simp only [wholeNumber, hdigits, List.map_cons]
  split
  · rename_i h
    exact nomatch (Prod.mk.inj h).1
  · rename_i h
    have hlist := (Prod.mk.inj h).1
    -- a second digit behind a zero
    have hzero := eq_zero_of_isDigit hc (List.cons.inj hlist).1
    rw [hzero] at hdigits
    rw [eq_nil_of_toDigits hdigits] at hlist
    exact nomatch (List.cons.inj hlist).2
  · rfl

theorem parseNumber_toDigits (n : Nat) {rest : List Char} (hrest : Closes rest) :
    parseNumber (Nat.toDigits 10 n ++ rest) = .ok (wholeNumber n, rest) := by
  have hwhole := scanWhole_toDigits n hrest
  have hfraction : scanFraction rest = .ok ([], rest) := by
    cases rest with
    | nil => rfl
    | cons c rest => rcases hrest c rfl with rfl | rfl | rfl <;> rfl
  have hexponent : scanExponent rest = .ok (none, rest) := by
    cases rest with
    | nil => rfl
    | cons c rest => rcases hrest c rfl with rfl | rfl | rfl <;> rfl
  obtain ⟨c, ds, hdigits, hc⟩ := toDigits_cases n
  have hsign : c ≠ '-' := by
    rintro rfl
    exact nomatch hc
  rw [hdigits, List.cons_append] at hwhole ⊢
  unfold parseNumber
  split
  rename_i negative cs hsplit
  split at hsplit
  · rename_i h
    exact absurd (List.cons.inj h).1 hsign
  · cases hsplit
    simp only [hwhole, hfraction, hexponent, bind, Except.bind]
    rfl

/-! ### Values -/

namespace Value

mutual

/-- What a reader finds in the text of a value. -/
def tree : Value → Tree
  | null => .null
  | bool b => .bool b
  | number n => .number (wholeNumber n)
  | string s => .string (.ok s)
  | array items => .array (itemTrees items) none
  | object fields => .object (fieldTrees fields) none

def itemTrees : List Value → List Tree
  | [] => []
  | v :: vs => tree v :: itemTrees vs

def fieldTrees : List (String × Value) → List (Except Flaw String × Tree)
  | [] => []
  | (k, v) :: fs => (.ok k, tree v) :: fieldTrees fs

end

theorem isBlank_of_isDigit {c : Char} (hc : c.isDigit = true) : isBlank c = false := by
  simp only [isBlank, Bool.or_eq_false_iff, decide_eq_false_iff_not]
  refine ⟨⟨⟨?_, ?_⟩, ?_⟩, ?_⟩ <;> rintro rfl <;> exact nomatch hc

/-- The text of a value starts with something that is neither a blank nor the end of a list. -/
theorem exists_chars_eq_cons (v : Value) : ∃ c cs, v.chars = c :: cs ∧ isBlank c = false ∧ c ≠ ']' := by
  cases v with
  | null => exact ⟨_, _, rfl, by decide, by decide⟩
  | bool b => cases b <;> exact ⟨_, _, rfl, by decide, by decide⟩
  | number n =>
    obtain ⟨c, ds, hdigits, hc⟩ := toDigits_cases n
    refine ⟨c, ds, hdigits, isBlank_of_isDigit hc, ?_⟩
    rintro rfl
    exact nomatch hc
  | string s => exact ⟨_, _, rfl, by decide, by decide⟩
  | array items => exact ⟨_, _, rfl, by decide, by decide⟩
  | object fields => exact ⟨_, _, rfl, by decide, by decide⟩

theorem skipBlanks_cons {c : Char} (hc : isBlank c = false) (cs : List Char) : skipBlanks (c :: cs) = c :: cs := by
  rw [skipBlanks, List.dropWhile_cons_of_neg (by rw [hc]; exact Bool.false_ne_true)]

theorem parseValue_digit {c : Char} (hc : c.isDigit = true) {cs rest : List Char} {n : Number} (fuel : Nat)
    (h : parseNumber (c :: cs) = .ok (n, rest)) : parseValue (fuel + 1) (c :: cs) = (.number n, rest) := by
  rw [parseValue, skipBlanks_cons (isBlank_of_isDigit hc)]
  split
  · rename_i hcs
    exact nomatch hcs
  iterate 6
    · rename_i hcs
      obtain ⟨rfl, -⟩ := List.cons.inj hcs
      exact nomatch hc
  · rename_i hcs
    obtain ⟨rfl, rfl⟩ := List.cons.inj hcs
    rw [if_pos (by rw [hc, Bool.or_true]), h]

theorem quoted_append (s : String) (rest : List Char) :
    quoted s ++ rest = '"' :: (s.toList.flatMap escape ++ '"' :: rest) := by
  simp only [quoted, List.cons_append, List.append_assoc, List.nil_append]

/-! Reading goes on behind a bracket, a comma or a colon, where the node writes no blanks. -/

theorem parseValue_array (v : Value) (fuel : Nat) (cs : List Char) :
    parseValue (fuel + 1) ('[' :: (v.chars ++ cs)) =
      (.array (parseItems fuel (v.chars ++ cs)).1 (parseItems fuel (v.chars ++ cs)).2.1,
        (parseItems fuel (v.chars ++ cs)).2.2) := by
  obtain ⟨c, tail, hv, hblank, hclose⟩ := exists_chars_eq_cons v
  rw [hv, List.cons_append, parseValue, skipBlanks_cons (by decide)]
  simp only [skipBlanks_cons hblank]
  split
  · rename_i h
    exact nomatch h
  · rename_i h
    exact absurd (List.cons.inj h).1 hclose
  · rfl

theorem parseValue_object (fuel : Nat) (cs : List Char) :
    parseValue (fuel + 1) ('\x7b' :: '"' :: cs) =
      (.object (parseFields fuel cs).1 (parseFields fuel cs).2.1, (parseFields fuel cs).2.2) := by
  rw [parseValue, skipBlanks_cons (by decide)]
  simp only [skipBlanks_cons (show isBlank '"' = false by decide)]

variable {fuel : Nat} {cs rest : List Char} {t : Tree}

theorem parseItems_last (h : parseValue fuel cs = (t, ']' :: rest)) :
    parseItems (fuel + 1) cs = ([t], none, rest) := by
  rw [parseItems, h]
  rfl

theorem parseItems_more (v : Value) (h : parseValue fuel cs = (t, ',' :: (v.chars ++ rest))) :
    parseItems (fuel + 1) cs =
      (t :: (parseItems fuel (v.chars ++ rest)).1, (parseItems fuel (v.chars ++ rest)).2) := by
  obtain ⟨c, tail, hv, hblank, hclose⟩ := exists_chars_eq_cons v
  rw [hv, List.cons_append] at h ⊢
  rw [parseItems, h]
  simp only [skipBlanks_cons (show isBlank ',' = false by decide), skipBlanks_cons hblank]
  split
  · rename_i h
    exact nomatch h
  · rename_i h
    exact absurd (List.cons.inj h).1 hclose
  · rfl

variable {k : String} {after : List Char}

theorem parseFields_last (hk : parseString cs = .ok (.ok k, ':' :: after))
    (hv : parseValue fuel after = (t, '\x7d' :: rest)) : parseFields (fuel + 1) cs = ([(.ok k, t)], none, rest) := by
  rw [parseFields, hk]
  simp only [skipBlanks_cons (show isBlank ':' = false by decide), hv]
  rfl

theorem parseFields_more (hk : parseString cs = .ok (.ok k, ':' :: after))
    (hv : parseValue fuel after = (t, ',' :: '"' :: rest)) :
    parseFields (fuel + 1) cs = ((.ok k, t) :: (parseFields fuel rest).1, (parseFields fuel rest).2) := by
  rw [parseFields, hk]
  simp only [skipBlanks_cons (show isBlank ':' = false by decide), hv,
    skipBlanks_cons (show isBlank ',' = false by decide), skipBlanks_cons (show isBlank '"' = false by decide)]

/-- The text of a field. -/
def fieldText (k : String) (v : Value) : List Char := quoted k ++ [':'] ++ v.chars

theorem fieldText_append (k : String) (v : Value) (cs : List Char) :
    fieldText k v ++ cs = '"' :: (k.toList.flatMap escape ++ '"' :: ':' :: (v.chars ++ cs)) := by
  rw [fieldText, List.append_assoc, List.append_assoc, quoted_append]
  rfl

theorem joinCommas_cons_cons (x y : List Char) (ys : List (List Char)) :
    joinCommas (x :: y :: ys) = x ++ ',' :: joinCommas (y :: ys) := by
  rw [joinCommas, List.append_assoc, List.singleton_append]
  exact List.cons_ne_nil y ys

theorem exists_joinCommas_cons (x : List Char) (xs : List (List Char)) : ∃ cs, joinCommas (x :: xs) = x ++ cs := by
  cases xs with
  | nil => exact ⟨[], (List.append_nil x).symm⟩
  | cons y ys => exact ⟨_, joinCommas_cons_cons x y ys⟩

theorem exists_joinCommas_itemChars (v : Value) (vs : List Value) :
    ∃ cs, joinCommas (itemChars (v :: vs)) = v.chars ++ cs := exists_joinCommas_cons v.chars (itemChars vs)

theorem exists_joinCommas_fieldChars (k : String) (v : Value) (fs : List (String × Value)) (rest : List Char) :
    ∃ cs, joinCommas (fieldChars ((k, v) :: fs)) ++ rest = '"' :: cs := by
  obtain ⟨tail, htail⟩ := exists_joinCommas_cons (fieldText k v) (fieldChars fs)
  have hjoin : joinCommas (fieldChars ((k, v) :: fs)) = fieldText k v ++ tail := htail
  rw [hjoin, List.append_assoc, fieldText_append]
  exact ⟨_, rfl⟩

mutual

/-- The text of a value is read up to its end, with fuel for twice its length. -/
theorem parseValue_chars : ∀ (v : Value) (fuel : Nat) (rest : List Char), 2 * v.chars.length ≤ fuel → Closes rest →
    parseValue fuel (v.chars ++ rest) = (v.tree, rest)
  | null, fuel + 1, rest, _, _ => rfl
  | bool true, fuel + 1, rest, _, _ => rfl
  | bool false, fuel + 1, rest, _, _ => rfl
  | number n, fuel + 1, rest, _, hrest => by
    obtain ⟨c, ds, hdigits, hc⟩ := toDigits_cases n
    have hnumber := parseNumber_toDigits n hrest
    rw [hdigits, List.cons_append] at hnumber
    rw [chars, hdigits, List.cons_append, parseValue_digit hc fuel hnumber]
    rfl
  | string s, fuel + 1, rest, _, _ => by
    rw [chars, quoted_append, parseValue, skipBlanks_cons (by decide)]
    simp only [parseString_quoted]
    rfl
  | array [], fuel + 1, rest, _, _ => rfl
  | array (v :: vs), fuel + 1, rest, hfuel, _ => by
    have hchars : (array (v :: vs)).chars = '[' :: (joinCommas (itemChars (v :: vs)) ++ [']']) := rfl
    rw [hchars, List.length_cons, List.length_append, List.length_singleton] at hfuel
    have hitems := parseItems_chars v vs fuel rest (by omega)
    obtain ⟨cs, hjoin⟩ := exists_joinCommas_itemChars v vs
    rw [hjoin, List.append_assoc] at hitems
    rw [hchars, List.cons_append, List.append_assoc, List.singleton_append, hjoin, List.append_assoc, parseValue_array,
      hitems]
    rfl
  | object [], fuel + 1, rest, _, _ => rfl
  | object ((k, v) :: fs), fuel + 1, rest, hfuel, _ => by
    have hchars : (object ((k, v) :: fs)).chars = '\x7b' :: (joinCommas (fieldChars ((k, v) :: fs)) ++ ['\x7d']) := rfl
    rw [hchars, List.length_cons, List.length_append, List.length_singleton] at hfuel
    obtain ⟨cs, hjoin⟩ := exists_joinCommas_fieldChars k v fs ('\x7d' :: rest)
    have hfields := parseFields_chars k v fs fuel _ rest (by omega) hjoin
    rw [hchars, List.cons_append, List.append_assoc, List.singleton_append, hjoin, parseValue_object, hfields]
    rfl
  | v, 0, rest, hfuel, _ => by
    obtain ⟨c, cs, hv, -, -⟩ := exists_chars_eq_cons v
    rw [hv, List.length_cons] at hfuel
    omega

theorem parseItems_chars : ∀ (v : Value) (vs : List Value) (fuel : Nat) (rest : List Char),
    2 * (joinCommas (itemChars (v :: vs))).length + 1 ≤ fuel →
    parseItems fuel (joinCommas (itemChars (v :: vs)) ++ ']' :: rest) = (itemTrees (v :: vs), none, rest)
  | v, [], fuel + 1, rest, hfuel => by
    have hjoin : joinCommas (itemChars [v]) = v.chars := rfl
    rw [hjoin] at hfuel ⊢
    exact parseItems_last (parseValue_chars v fuel _ (by omega) (closes_cons (.inr (.inl rfl)) rest))
  | v, w :: vs, fuel + 1, rest, hfuel => by
    have hjoin : joinCommas (itemChars (v :: w :: vs)) = v.chars ++ ',' :: joinCommas (itemChars (w :: vs)) :=
      joinCommas_cons_cons _ _ _
    rw [hjoin, List.length_append, List.length_cons] at hfuel
    rw [hjoin, List.append_assoc, List.cons_append]
    have hitem := parseValue_chars v fuel (',' :: (joinCommas (itemChars (w :: vs)) ++ ']' :: rest)) (by omega)
      (closes_cons (.inl rfl) _)
    have hitems := parseItems_chars w vs fuel rest (by omega)
    obtain ⟨cs, hw⟩ := exists_joinCommas_itemChars w vs
    rw [hw, List.append_assoc] at hitem hitems ⊢
    rw [parseItems_more w hitem, hitems]
    rfl
  | _, _, 0, _, hfuel => by
    omega

theorem parseFields_chars : ∀ (k : String) (v : Value) (fs : List (String × Value)) (fuel : Nat) (cs rest : List Char),
    2 * (joinCommas (fieldChars ((k, v) :: fs))).length + 1 ≤ fuel →
    joinCommas (fieldChars ((k, v) :: fs)) ++ '\x7d' :: rest = '"' :: cs →
    parseFields fuel cs = (fieldTrees ((k, v) :: fs), none, rest)
  | k, v, [], fuel + 1, cs, rest, hfuel, hcs => by
    have hjoin : joinCommas (fieldChars [(k, v)]) = fieldText k v := rfl
    have hlength : v.chars.length ≤ (fieldText k v).length := by
      rw [fieldText, List.length_append]
      exact Nat.le_add_left _ _
    rw [hjoin] at hfuel hcs
    rw [fieldText_append] at hcs
    cases hcs
    exact parseFields_last (parseString_quoted k _)
      (parseValue_chars v fuel _ (by omega) (closes_cons (.inr (.inr rfl)) rest))
  | k, v, (k', w) :: fs, fuel + 1, cs, rest, hfuel, hcs => by
    have hjoin : joinCommas (fieldChars ((k, v) :: (k', w) :: fs)) =
        fieldText k v ++ ',' :: joinCommas (fieldChars ((k', w) :: fs)) := joinCommas_cons_cons _ _ _
    have hlength : v.chars.length ≤ (fieldText k v).length := by
      rw [fieldText, List.length_append]
      exact Nat.le_add_left _ _
    obtain ⟨more, hmore⟩ := exists_joinCommas_fieldChars k' w fs ('\x7d' :: rest)
    rw [hjoin, List.length_append, List.length_cons] at hfuel
    rw [hjoin, List.append_assoc, List.cons_append, fieldText_append, hmore] at hcs
    cases hcs
    have hfield := parseValue_chars v fuel (',' :: '"' :: more) (by omega) (closes_cons (.inl rfl) _)
    have hfields := parseFields_chars k' w fs fuel more rest (by omega) hmore
    rw [parseFields_more (parseString_quoted k _) hfield, hfields]
    rfl
  | _, _, _, 0, _, _, hfuel, _ => by
    omega

end

/-- The text of a value parses to the value, and nothing follows. -/
theorem parse_render (v : Value) : Tree.parse v.render = (v.tree, []) := by
  have hlength : v.render.length = v.chars.length := String.length_ofList
  have hchars : v.render.toList = v.chars := String.toList_ofList
  have h := parseValue_chars v (2 * v.render.length + 2) [] (by omega) closes_nil
  rwa [List.append_nil, ← hchars] at h

end Value

/-! ### Lists and records -/

theorem Value.itemTrees_eq_map (vs : List Value) : itemTrees vs = vs.map tree := by
  induction vs with
  | nil => rfl
  | cons v vs ih => rw [itemTrees, ih, List.map_cons]

namespace Reading

variable {α : Type} {r : Reading α} {w : α → Value}

theorem items_map_tree (h : ∀ a, r (w a).tree = .ok a) (as : List α) (i : Nat) :
    items r i ((as.map w).map Value.tree) = .ok as := by
  induction as generalizing i with
  | nil => rfl
  | cons a as ih =>
    rw [List.map_cons, List.map_cons, items, h, ih]
    rfl

theorem list_tree (h : ∀ a, r (w a).tree = .ok a) (as : List α) : list r (Value.array (as.map w)).tree = .ok as := by
  rw [Value.tree, Value.itemTrees_eq_map, list, items_map_tree h]
  rfl

end Reading

/-- A record of one field is read from an object of one field. -/
theorem Record.read_object {α : Type} {r : Record α} {f : Field α} {t : Tree} {g : α → α} (hr : r.fields = [f])
    (h : f.read t = .ok g) : r.read (.object [(.ok f.name, t)] none) = .ok (g r.blank) := by
  simp [Record.read, Record.ofFields, Record.finish, hr, h, within, bind, Except.bind]

end Json

end TxRecovery
