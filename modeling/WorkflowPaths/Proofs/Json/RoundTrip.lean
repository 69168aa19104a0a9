import Mathlib.Data.List.DropRight
import WorkflowPaths.Json.Reader
import WorkflowPaths.Json.Writer

/-!
# Reading what was written

A text that was written is read as the value that was written, on one line or over several. The
reader works from left to right and gives back the rest of the text, so every statement is about
what was written in front of some rest.

* `readString_quote`: a string survives its escapes, whatever characters it holds.
* `readNumber_toDigits`: a 64-bit number survives, if what follows cannot be a part of it.
* `IsPlain.readsBack`: so does a value made of such numbers and strings, in every layout.

Hence both ways of writing are undone (`IsPlain.read?_compact`, `IsPlain.read?_pretty`).
-/

namespace WorkflowPaths.Json

variable {rest : List Char}

/-! ### Strings -/

/-- The piece of a literal stands for the character, directly or by its code unit. -/
inductive Piece.Spells : Piece → Char → Prop where
  /-- A character stands for itself. -/
  | char (c : Char) : Spells (.char c) c
  /-- A control character may be given by its code unit. -/
  | unit (c : Char) (h : c.toNat < 0x20) : Spells (.unit c.toNat) c

theorem hexValue?_hexDigit {n : Nat} (h : n < 16) : hexValue? (hexDigit n) = some n := by
  have hall : ∀ m < 16, hexValue? (hexDigit m) = some m := by decide
  exact hall n h

theorem codeUnit?_hexDigit {n : Nat} (h : n < 0x20) :
    codeUnit? '0' '0' (hexDigit (n / 16)) (hexDigit (n % 16)) = some n := by
  have hhigh := hexValue?_hexDigit (n := n / 16) (by omega)
  have hlow := hexValue?_hexDigit (n := n % 16) (by omega)
  have hzero : hexValue? '0' = some 0 := by decide
  simp only [codeUnit?, hzero, hhigh, hlow, Option.some.injEq]
  omega

/-- The escape of a single character is read as that character. -/
theorem readPieces_shortEscape {e c : Char} (h : shortEscape? e = some c) (acc : List Piece) :
    readPieces acc ('\\' :: e :: rest) = readPieces (.char c :: acc) rest := by
  have hu : e ≠ 'u' := by
    rintro rfl
    cases h
  rw [readPieces, h]
  intro a b c d r he
  exact absurd he hu

/-- A character that needs no escape is read as it stands. -/
theorem readPieces_plain {c : Char} (hquote : c ≠ '"') (hbackslash : c ≠ '\\')
    (hplain : 0x20 ≤ c.toNat) (acc : List Piece) :
    readPieces acc (c :: rest) = readPieces (.char c :: acc) rest := by
  rw [readPieces, if_neg (by omega)]
  · exact hquote
  · rintro a b c d r rfl
    exact absurd rfl hbackslash
  · rintro e r rfl
    exact absurd rfl hbackslash

/-- A character is written with a short escape, as it is, or by its code unit. -/
theorem escapeChar_cases (c : Char) :
    (∃ e, shortEscape? e = some c ∧ escapeChar c = ['\\', e]) ∨
    (c ≠ '"' ∧ c ≠ '\\' ∧ 0x20 ≤ c.toNat ∧ escapeChar c = [c]) ∨
    (c.toNat < 0x20 ∧
      escapeChar c = ['\\', 'u', '0', '0', hexDigit (c.toNat / 16), hexDigit (c.toNat % 16)]) := by
  unfold escapeChar
  by_cases hquote : c = '"'
  · rw [if_pos hquote]
    exact .inl ⟨'"', by subst hquote; rfl, rfl⟩
  rw [if_neg hquote]
  by_cases hbackslash : c = '\\'
  · rw [if_pos hbackslash]
    exact .inl ⟨'\\', by subst hbackslash; rfl, rfl⟩
  rw [if_neg hbackslash]
  by_cases hplain : 0x20 ≤ c.toNat
  · rw [if_pos hplain]
    exact .inr (.inl ⟨hquote, hbackslash, hplain, rfl⟩)
  rw [if_neg hplain]
  by_cases hn : c = '\n'
  · rw [if_pos hn]
    exact .inl ⟨'n', by subst hn; rfl, rfl⟩
  rw [if_neg hn]
  by_cases hr : c = '\r'
  · rw [if_pos hr]
    exact .inl ⟨'r', by subst hr; rfl, rfl⟩
  rw [if_neg hr]
  by_cases ht : c = '\t'
  · rw [if_pos ht]
    exact .inl ⟨'t', by subst ht; rfl, rfl⟩
  rw [if_neg ht]
  by_cases hb : c.toNat = 0x08
  · have hc : Char.ofNat 0x08 = c := by rw [← hb, Char.ofNat_toNat]
    rw [if_pos hb]
    exact .inl ⟨'b', by subst hc; rfl, rfl⟩
  rw [if_neg hb]
  by_cases hf : c.toNat = 0x0C
  · have hc : Char.ofNat 0x0C = c := by rw [← hf, Char.ofNat_toNat]
    rw [if_pos hf]
    exact .inl ⟨'f', by subst hc; rfl, rfl⟩
  rw [if_neg hf]
  exact .inr (.inr ⟨Nat.not_le.1 hplain, rfl⟩)

/-- An escaped character is read as one piece that stands for it. -/
theorem exists_piece (c : Char) : ∃ p : Piece, p.Spells c ∧
    ∀ acc rest, readPieces acc (escapeChar c ++ rest) = readPieces (p :: acc) rest := by
  rcases escapeChar_cases c with ⟨e, he, hc⟩ | ⟨hquote, hbackslash, hplain, hc⟩ | ⟨hlt, hc⟩
  · refine ⟨.char c, .char c, fun acc rest => ?_⟩
    rw [hc]
    exact readPieces_shortEscape he acc
  · refine ⟨.char c, .char c, fun acc rest => ?_⟩
    rw [hc]
    exact readPieces_plain hquote hbackslash hplain acc
  · refine ⟨.unit c.toNat, .unit c hlt, fun acc rest => ?_⟩
    rw [hc]
    simp only [List.cons_append, List.nil_append]
    rw [readPieces, codeUnit?_hexDigit hlt]

/-- A piece is put together to the character that it stands for. -/
theorem Piece.Spells.assemble?_cons {p : Piece} {c : Char} (h : p.Spells c) (acc : List Char)
    (pieces : List Piece) : assemble? acc (p :: pieces) = assemble? (c :: acc) pieces := by
  cases h with
  | char => rfl
  | unit _ hc =>
    have hhigh : isHighSurrogate c.toNat = false := by
      simp only [isHighSurrogate, Bool.and_eq_false_iff, decide_eq_false_iff_not]
      omega
    have hlow : isLowSurrogate c.toNat = false := by
      simp only [isLowSurrogate, Bool.and_eq_false_iff, decide_eq_false_iff_not]
      omega
    rw [assemble?.eq_def]
    simp only [hhigh, hlow, Bool.false_eq_true, if_false, Char.ofNat_toNat]

/-- The characters between the quotes are read as pieces that are put together to the same
characters. -/
theorem exists_pieces (cs rest : List Char) (acc : List Piece) : ∃ pieces,
    readPieces acc (cs.flatMap escapeChar ++ '"' :: rest) = some (acc.reverse ++ pieces, rest) ∧
      ∀ before, assemble? before pieces = some (String.ofList (before.reverse ++ cs)) := by
  induction cs generalizing acc with
  | nil =>
    refine ⟨[], ?_, fun before => ?_⟩
    · rw [List.append_nil]
      rfl
    · rw [List.append_nil]
      rfl
  | cons c cs ih =>
    obtain ⟨p, hspells, hread⟩ := exists_piece c
    obtain ⟨pieces, hpieces, hassemble⟩ := ih (p :: acc)
    refine ⟨p :: pieces, ?_, fun before => ?_⟩
    · rw [List.flatMap_cons, List.append_assoc, hread, hpieces]
      simp
    · rw [hspells.assemble?_cons, hassemble]
      simp

/-- A string literal is read as the string that was quoted. -/
theorem readString_quote (s : String) :
    readString (s.toList.flatMap escapeChar ++ '"' :: rest) = some (some s, rest) := by
  obtain ⟨pieces, hpieces, hassemble⟩ := exists_pieces s.toList rest []
  rw [readString, hpieces]
  simp [hassemble]

/-! ### Numbers -/

/-- What follows a number is no part of it. -/
def EndsNumber (rest : List Char) : Prop :=
  ∀ c ∈ rest.head?, c.isDigit = false ∧ c ≠ '.' ∧ c ≠ 'e' ∧ c ≠ 'E'

theorem readDigits_append {digits : List Char} (hdigits : ∀ c ∈ digits, c.isDigit = true)
    (hrest : EndsNumber rest) : readDigits (digits ++ rest) = (digits, rest) := by
  have hnone : rest.takeWhile Char.isDigit = [] ∧ rest.dropWhile Char.isDigit = rest := by
    cases rest with
    | nil => exact ⟨rfl, rfl⟩
    | cons c r =>
      have hc : c.isDigit = false := (hrest c rfl).1
      simp [hc]
  rw [readDigits, List.takeWhile_append_of_pos hdigits, List.dropWhile_append_of_pos hdigits,
    hnone.1, hnone.2, List.append_nil]

theorem readFraction_of_endsNumber (h : EndsNumber rest) : readFraction rest = some ([], rest) := by
  unfold readFraction
  split
  next r => exact absurd rfl (h '.' rfl).2.1
  next => rfl

theorem readScale_of_endsNumber (h : EndsNumber rest) : readScale rest = some (none, rest) := by
  cases rest with
  | nil => rfl
  | cons c r =>
    obtain ⟨-, -, he, hE⟩ := h c rfl
    rw [readScale, if_neg (by simp [he, hE])]

/-- Only the number zero is written with a leading zero. -/
theorem head?_toDigits_ne {n : Nat} (h : 0 < n) : (Nat.toDigits 10 n).head? ≠ some '0' := by
  induction n using Nat.strongRecOn with
  | ind n ih =>
    by_cases hlt : n < 10
    · have hall : ∀ m < 10, 0 < m → m.digitChar ≠ '0' := by decide +kernel
      rw [Nat.toDigits_of_lt_base hlt]
      simpa using hall n hlt h
    · rw [Nat.toDigits_of_base_le (by omega) (by omega),
        List.head?_append, Option.or_of_isSome (by simp [Nat.toDigits_ne_nil])]
      exact ih (n / 10) (by omega) (by omega)

/-- The digits of a number have no zero in front of others. -/
theorem toDigits_ne_zero_cons (n : Nat) (d : Char) (ds : List Char) :
    Nat.toDigits 10 n ≠ '0' :: d :: ds := by
  intro h
  rcases Nat.eq_zero_or_pos n with rfl | hn
  · rw [Nat.toDigits_zero] at h
    cases h
  · exact head?_toDigits_ne hn (by rw [h]; rfl)

/-- A number of at most 64 bits is read as it was written. -/
theorem readNumber_toDigits {n : Nat} (hn : n < UInt64.size) (hrest : EndsNumber rest) :
    readNumber (Nat.toDigits 10 n ++ rest) = some (.nat n, rest) := by
  have hdigits : ∀ c ∈ Nat.toDigits 10 n, c.isDigit = true := fun c hc =>
    Nat.isDigit_of_mem_toDigits (by decide) (by decide) hc
  have htake : takeDigits 0 (Nat.toDigits 10 n) = (n, 0) := by
    rw [takeDigits_of_lt] <;> simp [hn]
  unfold readNumber
  split
  next negative unsigned hsign =>
    obtain ⟨rfl, rfl⟩ : negative = false ∧ unsigned = Nat.toDigits 10 n ++ rest := by
      split at hsign
      next r hminus =>
        have hmem : '-' ∈ Nat.toDigits 10 n := by
          cases hds : Nat.toDigits 10 n with
          | nil => exact absurd hds Nat.toDigits_ne_nil
          | cons d ds =>
            rw [hds] at hminus
            cases hminus
            exact List.mem_cons_self
        exact absurd (hdigits _ hmem) (by decide)
      next =>
        cases hsign
        exact ⟨rfl, rfl⟩
    rw [readDigits_append hdigits hrest]
    dsimp only
    split
    next hnil => exact absurd hnil Nat.toDigits_ne_nil
    next d ds hzero => exact absurd hzero (toDigits_ne_zero_cons n d ds)
    next =>
      rw [readFraction_of_endsNumber hrest]
      dsimp only
      rw [readScale_of_endsNumber hrest]
      simp [htake, takeDigits, isFinite]

/-! ### Values -/

/-- The value is made of strings, truth values, `null` and numbers of at most 64 bits. Such a value
is all that its text says. -/
inductive IsPlain : Json → Prop where
  /-- `null` is plain. -/
  | null : IsPlain .null
  /-- Truth values are plain. -/
  | bool (b : Bool) : IsPlain (.bool b)
  /-- Numbers of at most 64 bits are plain. -/
  | nat {n : Nat} (h : n < UInt64.size) : IsPlain (.nat n)
  /-- Strings are plain. -/
  | string (s : String) : IsPlain (.string s)
  /-- An array of plain values is plain. -/
  | array {items : List Json} (h : ∀ v ∈ items, IsPlain v) : IsPlain (.array items)
  /-- An object of plain values is plain. -/
  | object {members : List (String × Json)} (h : ∀ m ∈ members, IsPlain m.2) :
    IsPlain (.object members)

/-! ### Spaces -/

theorem isSpace_of_blank {c : Char} (h : c = ' ' ∨ c = '\n') : isSpace c = true := by
  rcases h with rfl | rfl
  · rfl
  · rfl

/-- Spaces in front are skipped. -/
theorem skipSpaces_append {spaces : List Char} (h : ∀ c ∈ spaces, c = ' ' ∨ c = '\n')
    (cs : List Char) : skipSpaces (spaces ++ cs) = skipSpaces cs :=
  List.dropWhile_append_of_pos fun c hc => isSpace_of_blank (h c hc)

theorem skipSpaces_cons {c : Char} (h : isSpace c = false) (cs : List Char) :
    skipSpaces (c :: cs) = c :: cs := by
  simp [skipSpaces, h]

theorem skipSpaces_skipSpaces (cs : List Char) : skipSpaces (skipSpaces cs) = skipSpaces cs :=
  List.dropWhile_idempotent _ cs

theorem readValue_skipSpaces (fuel : Nat) (cs : List Char) :
    readValue fuel (skipSpaces cs) = readValue fuel cs := by
  cases fuel with
  | zero => rw [readValue, readValue]
  | succ fuel => rw [readValue, readValue, skipSpaces_skipSpaces]

theorem readValue_append {spaces : List Char} (h : ∀ c ∈ spaces, c = ' ' ∨ c = '\n') (fuel : Nat)
    (cs : List Char) : readValue fuel (spaces ++ cs) = readValue fuel cs := by
  rw [← readValue_skipSpaces, skipSpaces_append h, readValue_skipSpaces]

theorem endsNumber_cons {c : Char} (h : c = ',' ∨ c = ']' ∨ c = '}') : EndsNumber (c :: rest) := by
  intro d hd
  cases hd
  rcases h with rfl | rfl | rfl <;> decide

theorem endsNumber_append {spaces : List Char} (hspaces : ∀ c ∈ spaces, c = ' ' ∨ c = '\n')
    (h : EndsNumber rest) : EndsNumber (spaces ++ rest) := by
  cases spaces with
  | nil => exact h
  | cons b r =>
    intro d hd
    cases hd
    rcases hspaces _ List.mem_cons_self with rfl | rfl <;> decide

/-! ### Brackets -/

/-- An array is read when its items are. -/
theorem readValue_array {fuel : Nat} {cs : List Char} {v : Json}
    (h : readItems fuel [] cs = some (v, rest)) :
    readValue (fuel + 1) ('[' :: cs) = some (v, rest) := by
  cases fuel with
  | zero => cases h
  | succ fuel =>
    rw [readItems, ← readValue_skipSpaces] at h
    rw [readValue, skipSpaces_cons (by decide)]
    simp only
    split
    next r hclosed =>
      -- A closing bracket is no item.
      rw [hclosed] at h
      cases fuel with
      | zero => cases h
      | succ fuel => cases h
    next =>
      rw [readItems]
      exact h

/-- An object is read when its members are. -/
theorem readValue_object {fuel : Nat} {cs : List Char} {v : Json}
    (h : readMembers fuel (some []) cs = some (v, rest)) :
    readValue (fuel + 1) ('{' :: cs) = some (v, rest) := by
  cases fuel with
  | zero => cases h
  | succ fuel =>
    rw [readMembers, ← skipSpaces_skipSpaces] at h
    rw [readValue, skipSpaces_cons (by decide)]
    simp only
    split
    next r hclosed =>
      rw [hclosed] at h
      cases h
    next =>
      rw [readMembers]
      exact h

variable {fuel : Nat} {cs spaces : List Char} {v : Json} {k : String}

/-- Behind a comma, the items go on. -/
theorem readItems_comma (h : readValue fuel cs = some (v, ',' :: rest)) (acc : List Json) :
    readItems (fuel + 1) acc cs = readItems fuel (v :: acc) rest := by
  rw [readItems, h]
  rfl

/-- At the closing bracket, the items end. -/
theorem readItems_close (hspaces : ∀ c ∈ spaces, c = ' ' ∨ c = '\n')
    (h : readValue fuel cs = some (v, spaces ++ ']' :: rest)) (acc : List Json) :
    readItems (fuel + 1) acc cs = some (.array (acc.reverse ++ [v]), rest) := by
  rw [readItems, h]
  dsimp only
  rw [skipSpaces_append hspaces, ← List.reverse_cons]
  rfl

/-- The key of a member is read, and its value. Then the members go on behind a comma, or end at the
closing brace. -/
theorem readMembers_quote (hspaces : ∀ c ∈ spaces, c = ' ' ∨ c = '\n')
    (h : readValue fuel cs = some (v, rest)) (acc : List (String × Json)) (r : List Char) :
    (skipSpaces rest = ',' :: r →
      readMembers (fuel + 1) (some acc) (spaces ++ (quote k ++ ':' :: cs)) =
        readMembers fuel (some ((k, v) :: acc)) r) ∧
    (skipSpaces rest = '}' :: r →
      readMembers (fuel + 1) (some acc) (spaces ++ (quote k ++ ':' :: cs)) =
        some (.object ((k, v) :: acc).reverse, r)) := by
  have hquote : quote k ++ ':' :: cs =
      '"' :: (k.toList.flatMap escapeChar ++ '"' :: ':' :: cs) := by
    simp [quote]
  have hcolon : skipSpaces (':' :: cs) = ':' :: cs := rfl
  rw [readMembers, skipSpaces_append hspaces, hquote, skipSpaces_cons (by decide)]
  constructor
  · intro hrest
    simp only [readString_quote, hcolon, h, hrest]
  · intro hrest
    simp only [readString_quote, hcolon, h, hrest]

/-- Behind a comma, the members go on. -/
theorem readMembers_comma (hspaces : ∀ c ∈ spaces, c = ' ' ∨ c = '\n')
    (h : readValue fuel cs = some (v, ',' :: rest)) (acc : List (String × Json)) :
    readMembers (fuel + 1) (some acc) (spaces ++ (quote k ++ ':' :: cs)) =
      readMembers fuel (some ((k, v) :: acc)) rest :=
  (readMembers_quote hspaces h acc rest).1 (skipSpaces_cons (by decide) rest)

/-- At the closing brace, the members end. -/
theorem readMembers_close {before : List Char} (hbefore : ∀ c ∈ before, c = ' ' ∨ c = '\n')
    (hspaces : ∀ c ∈ spaces, c = ' ' ∨ c = '\n')
    (h : readValue fuel cs = some (v, spaces ++ '}' :: rest)) (acc : List (String × Json)) :
    readMembers (fuel + 1) (some acc) (before ++ (quote k ++ ':' :: cs)) =
      some (.object (acc.reverse ++ [(k, v)]), rest) := by
  have hclosed : skipSpaces (spaces ++ '}' :: rest) = '}' :: rest := by
    rw [skipSpaces_append hspaces, skipSpaces_cons (by decide)]
  rw [(readMembers_quote hbefore h acc rest).2 hclosed, List.reverse_cons]

/-! ### Reading a layout -/

/-- In the layout, the value is read as it was written. Each character that was written gives a unit
of fuel, and no more are needed. -/
def ReadsBack (l : Layout) (v : Json) : Prop :=
  ∀ level fuel rest, (l.chars level v).length ≤ fuel → EndsNumber rest →
    readValue fuel (l.chars level v ++ rest) = some (v, rest)

variable {l : Layout} {level : Nat}

/-- Items are read up to the closing bracket if each of them is. -/
theorem readItems_itemChars {items : List Json} (hne : items ≠ [])
    (hread : ∀ v ∈ items, ReadsBack l v) (hspaces : ∀ c ∈ spaces, c = ' ' ∨ c = '\n')
    (hfuel : (l.itemChars level items).length < fuel) (acc : List Json) :
    readItems fuel acc (l.itemChars level items ++ (spaces ++ ']' :: rest)) =
      some (.array (acc.reverse ++ items), rest) := by
  induction items generalizing acc fuel with
  | nil => exact absurd rfl hne
  | cons v r ih =>
    obtain ⟨fuel, rfl⟩ := Nat.exists_eq_add_one_of_ne_zero (Nat.ne_zero_of_lt hfuel)
    have hv := hread v List.mem_cons_self level fuel
    cases r with
    | nil =>
      simp only [Layout.itemChars, List.length_append] at hfuel
      rw [Layout.itemChars, List.append_assoc]
      apply readItems_close hspaces
      rw [readValue_append (l.gap_blank level)]
      exact hv _ (by omega) (endsNumber_append hspaces (endsNumber_cons (by simp)))
    | cons w r =>
      simp only [Layout.itemChars, List.length_append, List.length_cons] at hfuel
      rw [Layout.itemChars, List.append_assoc, List.append_assoc, List.cons_append,
        readItems_comma (v := v),
        ih (by simp) (fun v hv => hread v (List.mem_cons_of_mem _ hv)) (by omega)]
      · simp
      · rw [readValue_append (l.gap_blank level)]
        exact hv _ (by omega) (endsNumber_cons (by simp))

/-- Members are read up to the closing brace if the value of each of them is. -/
theorem readMembers_memberChars {members : List (String × Json)} (hne : members ≠ [])
    (hread : ∀ m ∈ members, ReadsBack l m.2) (hspaces : ∀ c ∈ spaces, c = ' ' ∨ c = '\n')
    (hfuel : (l.memberChars level members).length < fuel) (acc : List (String × Json)) :
    readMembers fuel (some acc) (l.memberChars level members ++ (spaces ++ '}' :: rest)) =
      some (.object (acc.reverse ++ members), rest) := by
  induction members generalizing acc fuel with
  | nil => exact absurd rfl hne
  | cons m r ih =>
    obtain ⟨fuel, rfl⟩ := Nat.exists_eq_add_one_of_ne_zero (Nat.ne_zero_of_lt hfuel)
    obtain ⟨k, v⟩ := m
    have hv : ∀ rest, (l.chars level v).length ≤ fuel → EndsNumber rest → _ :=
      hread (k, v) List.mem_cons_self level fuel
    cases r with
    | nil =>
      simp only [Layout.memberChars, List.length_append, List.length_cons] at hfuel
      simp only [Layout.memberChars, List.append_assoc, List.cons_append]
      apply readMembers_close (l.gap_blank level) hspaces
      rw [readValue_append l.afterColon_blank]
      exact hv _ (by omega) (endsNumber_append hspaces (endsNumber_cons (by simp)))
    | cons w r =>
      simp only [Layout.memberChars, List.length_append, List.length_cons] at hfuel
      simp only [Layout.memberChars, List.append_assoc, List.cons_append]
      rw [readMembers_comma (l.gap_blank level) (v := v),
        ih (by simp) (fun m hm => hread m (List.mem_cons_of_mem _ hm)) (by omega)]
      · simp
      · rw [readValue_append l.afterColon_blank]
        exact hv _ (by omega) (endsNumber_cons (by simp))

/-- A value that starts with a digit is a number. -/
theorem readValue_of_isDigit {d : Char} (hd : d.isDigit = true) (fuel : Nat) (cs : List Char) :
    readValue (fuel + 1) (d :: cs) = readNumber (d :: cs) := by
  have hspace : isSpace d = false := by
    rw [Bool.eq_false_iff]
    intro hspace
    simp only [isSpace, Bool.or_eq_true, beq_iff_eq] at hspace
    rcases hspace with ((rfl | rfl) | rfl) | rfl <;> exact absurd hd (by decide)
  rw [readValue, skipSpaces_cons hspace]
  split
  case h_7 => rfl
  all_goals
    rename_i hcs
    cases hcs
    exact absurd hd (by decide)

theorem chars_array (l : Layout) (level : Nat) (v : Json) (r : List Json) :
    l.chars level (.array (v :: r)) =
      '[' :: l.itemChars (level + 1) (v :: r) ++ l.gap level ++ [']'] :=
  rfl

theorem chars_object (l : Layout) (level : Nat) (m : String × Json) (r : List (String × Json)) :
    l.chars level (.object (m :: r)) =
      '{' :: l.memberChars (level + 1) (m :: r) ++ l.gap level ++ ['}'] :=
  rfl

theorem readsBack_of_succ (hne : ∀ level, l.chars level v ≠ [])
    (h : ∀ level fuel rest, (l.chars level v).length ≤ fuel + 1 → EndsNumber rest →
      readValue (fuel + 1) (l.chars level v ++ rest) = some (v, rest)) : ReadsBack l v := by
  intro level fuel rest hfuel hrest
  have hpos := List.length_pos_iff.2 (hne level)
  obtain ⟨fuel, rfl⟩ := Nat.exists_eq_add_one_of_ne_zero (n := fuel) (by omega)
  exact h level fuel rest hfuel hrest

/-- A plain value is read back in every layout. -/
theorem IsPlain.readsBack (l : Layout) (h : v.IsPlain) : ReadsBack l v := by
  induction h with
  | null => exact readsBack_of_succ (fun _ => List.cons_ne_nil _ _) fun _ _ _ _ _ => rfl
  | bool b =>
    cases b with
    | false => exact readsBack_of_succ (fun _ => List.cons_ne_nil _ _) fun _ _ _ _ _ => rfl
    | true => exact readsBack_of_succ (fun _ => List.cons_ne_nil _ _) fun _ _ _ _ _ => rfl
  | @nat n hn =>
    refine readsBack_of_succ (fun _ => Nat.toDigits_ne_nil) fun level fuel rest _ hrest => ?_
    have hnumber := readNumber_toDigits hn hrest
    obtain ⟨d, ds, hds⟩ := List.exists_cons_of_ne_nil (Nat.toDigits_ne_nil (n := n) (b := 10))
    have hd : d.isDigit = true :=
      Nat.isDigit_of_mem_toDigits (b := 10) (n := n) (by decide) (by decide) (by simp [hds])
    show readValue (fuel + 1) (Nat.toDigits 10 n ++ rest) = some (.nat n, rest)
    rw [hds, List.cons_append, readValue_of_isDigit hd]
    rwa [hds] at hnumber
  | string s =>
    refine readsBack_of_succ (fun _ => List.cons_ne_nil _ _) fun level fuel rest _ _ => ?_
    have hquote : quote s ++ rest = '"' :: (s.toList.flatMap escapeChar ++ '"' :: rest) := by
      simp [quote]
    show readValue (fuel + 1) (quote s ++ rest) = some (.string s, rest)
    rw [hquote, readValue, skipSpaces_cons (by decide)]
    simp only [readString_quote]
  | @array items _ ih =>
    cases items with
    | nil => exact readsBack_of_succ (fun _ => List.cons_ne_nil _ _) fun _ _ _ _ _ => rfl
    | cons v r =>
      refine readsBack_of_succ (fun _ => List.cons_ne_nil _ _) fun level fuel rest hfuel _ => ?_
      simp only [chars_array, List.cons_append, List.append_assoc, List.length_cons,
        List.length_append] at hfuel ⊢
      exact readValue_array
        (readItems_itemChars (by simp) ih (l.gap_blank level) (by omega) [])
  | @object members _ ih =>
    cases members with
    | nil => exact readsBack_of_succ (fun _ => List.cons_ne_nil _ _) fun _ _ _ _ _ => rfl
    | cons m r =>
      refine readsBack_of_succ (fun _ => List.cons_ne_nil _ _) fun level fuel rest hfuel _ => ?_
      simp only [chars_object, List.cons_append, List.append_assoc, List.length_cons,
        List.length_append] at hfuel ⊢
      exact readValue_object
        (readMembers_memberChars (by simp) ih (l.gap_blank level) (by omega) [])

/-! ### Whole texts -/

theorem IsPlain.read?_chars (h : v.IsPlain) (l : Layout) :
    read? (String.ofList (l.chars 0 v)) = some v := by
  have hread := h.readsBack l 0 ((l.chars 0 v).length + 1) [] (Nat.le_succ _)
    (fun c hc => nomatch hc)
  rw [List.append_nil] at hread
  simp [read?, hread, skipSpaces]

/-- A value on one line is read as it was written. -/
theorem IsPlain.read?_compact (h : v.IsPlain) : read? v.compact = some v :=
  h.read?_chars .oneLine

/-- A value over several lines is read as it was written. -/
theorem IsPlain.read?_pretty (h : v.IsPlain) : read? v.pretty = some v :=
  h.read?_chars .manyLines

end WorkflowPaths.Json
