import GridKernel.Json.Parser
import GridKernel.Json.Printer

/-!
# Reading what was written

A JSON value whose numbers are integers is read back from its text. Each reader is shown to take
exactly what the writer wrote and to leave the rest of the text, whatever that is.
-/

namespace GridKernel

open List

/-! ## Integers -/

variable {c : Char}

namespace Number

theorem natOfDigits_digitsOf (n) : natOfDigits (digitsOf n) = n :=
  Nat.ofDigitChars_toDigits (by decide) (by decide)

theorem isDigit_of_mem_digitsOf (member : c ∈ digitsOf n) : Json.isDigit c = true :=
  Nat.isDigit_of_mem_toDigits (by decide) (by decide) member

theorem digitsOf_eq_cons (n) : ∃ c cs, digitsOf n = c :: cs ∧ Json.isDigit c = true := by
  obtain ⟨c, cs, split⟩ := exists_cons_of_ne_nil
    (Nat.toDigits_ne_nil : digitsOf n ≠ [])
  exact ⟨c, cs, split, isDigit_of_mem_digitsOf (split ▸ mem_cons_self)⟩

theorem digitChar_ne_zero : ∀ d < 10, d ≠ 0 → Nat.digitChar d ≠ '0' := by decide

/-- Only the number zero starts with a zero. -/
theorem head_digitsOf (positive : n ≠ 0) : ∃ c rest, digitsOf n = c :: rest ∧ c ≠ '0' := by
  induction n using Nat.strongRecOn with
  | ind n ih =>
    unfold digitsOf
    rw [Nat.toDigits_eq_if (by decide)]
    split
    · rename_i small
      exact ⟨n.digitChar, [], rfl, digitChar_ne_zero n small positive⟩
    · rename_i large
      obtain ⟨c, rest, split, nonzero⟩ := ih (n / 10) (by omega) (by omega)
      unfold digitsOf at split
      rw [split]
      exact ⟨c, _, rfl, nonzero⟩

end Number

namespace Numeral

theorem toInt?_ofInt (i) : (ofInt i).toInt? = some i := by
  simp only [toInt?, ofInt, Number.natOfDigits_digitsOf, isEmpty_nil, Option.isNone_none,
    Bool.and_self, if_true, decide_eq_true_eq]
  by_cases negative : i < 0
  · have nonzero : ¬(i.natAbs == 0) = true := by simp only [beq_iff_eq]; omega
    rw [if_pos negative, if_neg nonzero]
    exact congrArg some (by omega)
  · rw [if_neg negative]
    exact congrArg some (by omega)

end Numeral

namespace Json

/-! ## Numbers -/

/-- What may come after a value: nothing, or the next item or the end of what it is in. -/
def Stops : List Char → Prop
  | [] => True
  | c :: _ => c = ',' ∨ c = ']' ∨ c = '\x7d'

theorem span_digits (digits : ∀ c ∈ ds, isDigit c = true) (stops : Stops rest) :
    (ds ++ rest).takeWhile isDigit = ds ∧ (ds ++ rest).dropWhile isDigit = rest := by
  rw [takeWhile_append_of_pos digits, dropWhile_append_of_pos digits]
  cases rest with
  | nil => simp
  | cons c tail =>
    have other : isDigit c = false := by rcases stops with rfl | rfl | rfl <;> decide
    simp [other]

theorem scanDigits_append (some : ds ≠ []) (digits : ∀ c ∈ ds, isDigit c = true)
    (stops : Stops rest) : scanDigits (ds ++ rest) = .some (ds, rest) := by
  obtain ⟨taken, left⟩ := span_digits digits stops
  unfold scanDigits
  rw [taken, left]
  cases ds with
  | nil => exact absurd rfl some
  | cons d more => rfl

theorem scanFraction_stops (stops : Stops rest) : scanFraction rest = some ([], rest) := by
  cases rest with
  | nil => rfl
  | cons c tail => rcases stops with rfl | rfl | rfl <;> rfl

theorem scanExponent_stops (stops : Stops rest) : scanExponent rest = some (none, rest) := by
  cases rest with
  | nil => rfl
  | cons c tail => rcases stops with rfl | rfl | rfl <;> rfl

/-- After the digits before the point comes nothing that belongs to the number. -/
theorem scanNumber_ends (negative whole) (stops : Stops rest) :
    (do
      let (fraction, rest) ← scanFraction rest
      let (exponent, rest) ← scanExponent rest
      return ((⟨negative, whole, fraction, exponent⟩ : Numeral), rest)) =
      some (⟨negative, whole, [], none⟩, rest) := by
  simp [scanFraction_stops stops, scanExponent_stops stops]

theorem scanNumber_digitsOf (negative n) (stops : Stops rest) :
    scanNumber negative (Number.digitsOf n ++ rest) =
      some (⟨negative, Number.digitsOf n, [], none⟩, rest) := by
  by_cases zero : n = 0
  · subst zero
    exact scanNumber_ends negative ['0'] stops
  · obtain ⟨c, more, split, nonzero⟩ := Number.head_digitsOf zero
    have digits : scanDigits (Number.digitsOf n ++ rest) = some (Number.digitsOf n, rest) :=
      scanDigits_append Nat.toDigits_ne_nil
        (fun _ member => Number.isDigit_of_mem_digitsOf member) stops
    unfold scanNumber
    split
    · rename_i first
      rw [split] at first
      exact absurd (List.cons.inj first).1 nonzero
    · rw [digits]
      exact scanNumber_ends negative _ stops

/-! ## Strings -/

theorem value?_digit : ∀ d < 16, Hex.value? (Hex.digit d) = some d := by decide

/-- How a character is written: with a short escape, with its code, or as itself. -/
theorem escape_cases (c) :
    (∃ e, escape c = ['\\', e] ∧ e ≠ 'u' ∧ simpleEscape? e = some c) ∨
      (c.toNat < 32 ∧ escape c =
        ['\\', 'u', '0', '0', Hex.digit (c.toNat / 16), Hex.digit (c.toNat % 16)]) ∨
      (escape c = [c] ∧ c ≠ '"' ∧ c ≠ '\\' ∧ 32 ≤ c.toNat) := by
  unfold escape
  iterate 7
    split
    · exact .inl ⟨_, rfl, by decide, by subst_vars; rfl⟩
  split
  · rename_i control
    exact .inr (.inl ⟨control, rfl⟩)
  · rename_i quote backslash _ _ _ _ _ control
    exact .inr (.inr ⟨rfl, quote, backslash, by omega⟩)

/-- A code below the surrogates is a character of its own. -/
theorem joinPieces_unit (below : u < 0xd800) (pieces) :
    joinPieces (.unit u :: pieces) = (joinPieces pieces).map (Char.ofNat u :: ·) := by
  have noHigh : ¬(0xd800 ≤ u && u < 0xdc00) := by
    simp only [Bool.and_eq_true, decide_eq_true_eq]
    omega
  have noLow : ¬(0xdc00 ≤ u && u < 0xe000) := by
    simp only [Bool.and_eq_true, decide_eq_true_eq]
    omega
  rw [joinPieces.eq_def]
  dsimp only
  rw [if_neg noHigh, if_neg noLow]

/-- A character is read back from what it is written as: as itself, or as a code below the
surrogates. -/
theorem scanString_escape (c) (scanned : scanString text = some (pieces, rest)) :
    ∃ piece, scanString (escape c ++ text) = some (piece :: pieces, rest) ∧
      joinPieces (piece :: pieces) = (joinPieces pieces).map (c :: ·) := by
  rcases escape_cases c with ⟨e, written, other, short⟩ | ⟨control, written⟩ |
    ⟨written, quote, backslash, printable⟩
  · refine ⟨.char c, ?_, rfl⟩
    rw [written]
    simp only [List.cons_append, List.nil_append]
    rw [scanString]
    · rw [short, scanned]
      rfl
    · rintro _ _ _ _ _ rfl
      exact absurd rfl other
  · have high := value?_digit (c.toNat / 16) (by omega)
    have low := value?_digit (c.toNat % 16) (by omega)
    have code : c.toNat / 16 * 16 + c.toNat % 16 = c.toNat := by omega
    refine ⟨.unit c.toNat, ?_, ?_⟩
    · rw [written]
      simp only [List.cons_append, List.nil_append]
      rw [scanString, high, low, scanned]
      simp [Hex.value?, code]
    · rw [joinPieces_unit (by omega), Char.ofNat_toNat]
  · refine ⟨.char c, ?_, rfl⟩
    rw [written]
    simp only [List.cons_append, List.nil_append]
    rw [scanString, scanned]
    · simp [backslash, printable]
    · exact fun closes => absurd closes quote
    · exact fun _ _ _ _ _ escapes _ => absurd escapes backslash
    · exact fun _ _ escapes _ => absurd escapes backslash

theorem scanString_written (cs rest) :
    ∃ pieces, scanString (cs.flatMap escape ++ '"' :: rest) = some (pieces, rest) ∧
      joinPieces pieces = some cs := by
  induction cs with
  | nil => exact ⟨[], rfl, rfl⟩
  | cons c cs ih =>
    obtain ⟨pieces, scanned, joined⟩ := ih
    obtain ⟨piece, first, whole⟩ := scanString_escape c scanned
    refine ⟨piece :: pieces, ?_, ?_⟩
    · rw [flatMap_cons, append_assoc, first]
    · rw [whole, joined]
      rfl

theorem quote_append (s rest) :
    quote s ++ rest = '"' :: (s.toList.flatMap escape ++ '"' :: rest) := by
  simp [quote]

/-- A string is read back up to its closing quote, which no character of it is written as. -/
theorem scanText_written (s rest) :
    scanText (s.toList.flatMap escape ++ '"' :: rest) = some (some s, rest) := by
  obtain ⟨pieces, scanned, joined⟩ := scanString_written s.toList rest
  simp [scanText, scanned, joined]

/-! ## Values -/

mutual

/-- Whether a value holds only integers for numbers, and no broken string. -/
def Plain : Json → Prop
  | .num n => ∃ i, n = .ofInt i
  | .broken => False
  | .arr items => PlainItems items
  | .obj members => PlainMembers members
  | .null | .bool _ | .str _ => True

def PlainItems : List Json → Prop
  | [] => True
  | item :: items => item.Plain ∧ PlainItems items

def PlainMembers : List (String × Json) → Prop
  | [] => True
  | (_, value) :: members => value.Plain ∧ PlainMembers members

end

theorem write_ofInt (i) :
    (Numeral.ofInt i).write =
      (if i < 0 then ['-'] else []) ++ Number.digitsOf i.natAbs := by
  simp [Numeral.write, Numeral.ofInt]

theorem isBlank_of_isDigit (digit : isDigit c = true) : isBlank c = false := by
  cases blank : isBlank c with
  | false => rfl
  | true =>
    simp only [isBlank, Bool.or_eq_true, decide_eq_true_eq] at blank
    rcases blank with ((rfl | rfl) | rfl) | rfl <;> exact absurd digit (by decide)

theorem skipBlanks_cons (visible : isBlank c = false) (cs) : skipBlanks (c :: cs) = c :: cs := by
  simp [skipBlanks, visible]

/-- The text of a value starts with a character that no array ends with. -/
theorem write_head {j : Json} (plain : j.Plain) :
    ∃ c cs, j.write = c :: cs ∧ isBlank c = false ∧ c ≠ ']' := by
  match j with
  | .null | .bool true | .bool false | .str _ | .arr [] | .arr (_ :: _) | .obj []
  | .obj ((_, _) :: _) => exact ⟨_, _, rfl, by decide, by decide⟩
  | .num n =>
    obtain ⟨i, rfl⟩ := plain
    rw [write, write_ofInt]
    by_cases negative : i < 0
    · rw [if_pos negative]
      exact ⟨_, _, rfl, by decide, by decide⟩
    · rw [if_neg negative]
      obtain ⟨c, cs, split, digit⟩ := Number.digitsOf_eq_cons i.natAbs
      refine ⟨c, cs, split, isBlank_of_isDigit digit, ?_⟩
      rintro rfl
      exact absurd digit (by decide)

theorem scanValue_digit (digit : isDigit c = true) (n cs) :
    scanValue (n + 1) (c :: cs) =
      (scanNumber false (c :: cs)).map fun (x, r) => (.num x, r) := by
  rw [scanValue, skipBlanks_cons (isBlank_of_isDigit digit)]
  split
  case h_8 => rfl
  all_goals
    rename_i first
    rw [(List.cons.inj first).1] at digit
    exact absurd digit (by decide)

theorem scanValue_int (i n) (stops : Stops rest) :
    scanValue (n + 1) ((Numeral.ofInt i).write ++ rest) = some (.num (.ofInt i), rest) := by
  rw [write_ofInt]
  by_cases negative : i < 0
  · rw [if_pos negative]
    change (scanNumber true (Number.digitsOf i.natAbs ++ rest)).map _ = _
    rw [scanNumber_digitsOf true _ stops]
    simp [Numeral.ofInt, negative]
  · obtain ⟨c, cs, split, digit⟩ := Number.digitsOf_eq_cons i.natAbs
    have scanned := scanNumber_digitsOf false i.natAbs stops
    rw [split, List.cons_append] at scanned
    rw [if_neg negative, List.nil_append, split, List.cons_append, scanValue_digit digit, scanned]
    simp [Numeral.ofInt, negative, split]

theorem scanMember_written (key)
    (scanned : scanValue n (value.write ++ rest) = some (value, rest)) :
    scanMember (n + 1) (quote key ++ ':' :: (value.write ++ rest)) =
      some ((some key, value), rest) := by
  rw [quote_append, scanMember, skipBlanks_cons (by decide)]
  simp [scanText_written, skipBlanks_cons (c := ':') (by decide), scanned]

theorem mapM_named {read : Option String × Json → Option (String × Json)}
    (named : ∀ key value, read (some key, value) = some (key, value))
    (members : List (String × Json)) :
    (members.map fun m => (some m.1, m.2)).mapM read = some members := by
  induction members with
  | nil => rfl
  | cons member members ih => simp [named, ih]

theorem ofMembers_named (members : List (String × Json)) :
    ofMembers (members.map fun m => (some m.1, m.2)) = .obj members := by
  rw [ofMembers, mapM_named fun _ _ => rfl]

theorem writeItems_stops (items rest) : Stops (writeItems items ++ rest) := by
  cases items with
  | nil => exact .inr (.inl rfl)
  | cons item items => exact .inl rfl

theorem writeMembers_stops (members rest) : Stops (writeMembers members ++ rest) := by
  cases members with
  | nil => exact .inr (.inr rfl)
  | cons member members => exact .inl rfl

mutual

/-- What a value is written as is read back, and no more is taken of the text. -/
theorem scanValue_written : ∀ {j : Json}, j.Plain → ∀ {n : Nat} {rest : List Char}, Stops rest →
    j.write.length ≤ n → scanValue n (j.write ++ rest) = some (j, rest)
  | j, plain, 0, rest, stops, fits => by
    obtain ⟨c, cs, written, -⟩ := write_head plain
    rw [written] at fits
    exact absurd fits (Nat.not_succ_le_zero _)
  | .null, _, n + 1, _, _, _ | .bool true, _, n + 1, _, _, _ | .bool false, _, n + 1, _, _, _ => rfl
  | .num _, ⟨i, rfl⟩, n + 1, _, stops, _ => scanValue_int i n stops
  | .str s, _, n + 1, rest, _, _ => by
    rw [write, quote_append, scanValue, skipBlanks_cons (by decide)]
    simp [scanText_written]
  | .arr [], _, n + 1, _, _, _ | .obj [], _, n + 1, _, _, _ => rfl
  | .arr (item :: items), plain, n + 1, rest, stops, fits => by
    simp only [write, List.cons_append, List.append_assoc, List.length_cons,
      List.length_append] at fits ⊢
    have first := scanValue_written plain.1 (n := n) (writeItems_stops items rest) (by omega)
    have others : scanItems n (writeItems items ++ rest) = some (items, rest) :=
      scanItems_written plain.2 (by omega)
    obtain ⟨c, cs, written, visible, unclosed⟩ := write_head plain.1
    rw [scanValue, skipBlanks_cons (by decide)]
    rw [written, List.cons_append] at first ⊢
    simp [skipBlanks_cons visible, unclosed, first, others]
  | .obj ((key, value) :: members), plain, n + 1, rest, stops, fits => by
    simp only [write, List.cons_append, List.append_assoc, List.length_cons,
      List.length_append] at fits ⊢
    obtain ⟨m, rfl⟩ : ∃ m, n = m + 1 := ⟨n - 1, by omega⟩
    have member := scanMember_written key
      (scanValue_written plain.1 (n := m) (writeMembers_stops members rest) (by omega))
    have others : scanMembers (m + 1) (writeMembers members ++ rest) =
        some (members.map fun m => (some m.1, m.2), rest) :=
      scanMembers_written plain.2 (by omega)
    rw [quote_append] at member ⊢
    rw [scanValue, skipBlanks_cons (by decide)]
    simp [skipBlanks_cons (c := '"') (by decide), member, others,
      ← ofMembers_named ((key, value) :: members)]

theorem scanItems_written : ∀ {items : List Json}, PlainItems items → ∀ {n : Nat}
    {rest : List Char}, (writeItems items).length ≤ n →
      scanItems n (writeItems items ++ rest) = some (items, rest)
  | [], _, n + 1, _, _ => rfl
  | item :: items, plain, n + 1, rest, fits => by
    simp only [writeItems, cons_append, append_assoc, length_cons,
      length_append] at fits ⊢
    have first := scanValue_written plain.1 (n := n) (writeItems_stops items rest) (by omega)
    have others : scanItems n (writeItems items ++ rest) = some (items, rest) :=
      scanItems_written plain.2 (by omega)
    rw [scanItems, skipBlanks_cons (by decide)]
    simp [first, others]

theorem scanMembers_written : ∀ {members : List (String × Json)}, PlainMembers members →
    ∀ {n : Nat} {rest : List Char}, (writeMembers members).length ≤ n →
      scanMembers n (writeMembers members ++ rest) =
        some (members.map fun m => (some m.1, m.2), rest)
  | [], _, n + 1, _, _ => rfl
  | (key, value) :: members, plain, n + 1, rest, fits => by
    simp only [writeMembers, cons_append, append_assoc, length_cons,
      length_append] at fits ⊢
    obtain ⟨m, rfl⟩ : ∃ m, n = m + 1 := ⟨n - 1, by omega⟩
    have member := scanMember_written key
      (scanValue_written plain.1 (n := m) (writeMembers_stops members rest) (by omega))
    have others : scanMembers (m + 1) (writeMembers members ++ rest) =
        some (members.map fun m => (some m.1, m.2), rest) :=
      scanMembers_written plain.2 (by omega)
    rw [scanMembers, skipBlanks_cons (by decide)]
    simp [member, others]

end

/-- A value is read back from its text. -/
theorem parse?_compact (plain : j.Plain) : parse? j.compact = some j := by
  have scanned : scanValue (2 * j.write.length + 2) (j.write ++ []) = some (j, []) :=
    scanValue_written plain trivial (by omega)
  rw [append_nil] at scanned
  simp [parse?, compact, scanned, skipBlanks]

end Json

end GridKernel
