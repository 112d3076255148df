import Kelp.Proofs.Wat.Clauses
import Kelp.Wat.StringBody

/-!
# What string literals spell

`StringBody.Spells` says which bytes the inside of a string literal stands for, one rule for each
way to write them, and `StringBody.IsLegal` that they are the UTF-8 form of a text.

- `bytes?_eq_some_iff` and `decode?_eq_some_iff`: decoding finds what is spelled.
- `Spells.isClosedBody`: a legal inside has no bare quote and does not escape what follows it.
- `decode?_of_isId`: a name of word characters spells itself.
- `isPlainBody_of_isSuffix`: a text with escapes is longer than what it spells, so that no end of it
  spells it.
-/

namespace Kelp.Wat.StringBody

open SExpr (IsPlainBody IsClosedBody)

/-! ## Spelling -/

/-- Further digits of a hexadecimal number: from the value of the digits so far to the value of all.
An underscore is not the last character. -/
inductive HexDigits : Nat → List Char → Nat → Prop
  | nil {n : Nat} : HexDigits n [] n
  | digit {n v m : Nat} {d : Char} {ds : List Char} (hd : hexDigit? d = some v)
      (hds : HexDigits (n * 16 + v) ds m) : HexDigits n (d :: ds) m
  | underscore {n m : Nat} {ds : List Char} (hne : ds ≠ []) (hds : HexDigits n ds m) :
      HexDigits n ('_' :: ds) m

/-- The bytes that the inside of a string literal stands for. -/
inductive Spells : List Char → Bytes → Prop
  | nil : Spells [] []
  | plain {c : Char} {rest : List Char} {bs : Bytes} (hc : isPlain c = true)
      (hrest : Spells rest bs) : Spells (c :: rest) (String.utf8EncodeChar c ++ bs)
  | letter {c e : Char} {rest : List Char} {bs : Bytes} (hc : letterEscape? c = some e)
      (hrest : Spells rest bs) : Spells ('\\' :: c :: rest) (String.utf8EncodeChar e ++ bs)
  | byte {c d : Char} {high low : Nat} {rest : List Char} {bs : Bytes}
      (hc : hexDigit? c = some high) (hd : hexDigit? d = some low) (hrest : Spells rest bs) :
      Spells ('\\' :: c :: d :: rest) (UInt8.ofNat (high * 16 + low) :: bs)
  | number {d e : Char} {v n : Nat} {ds rest : List Char} {bs : Bytes} (hd : hexDigit? d = some v)
      (hds : HexDigits v ds n) (he : charOfNat? n = some e) (hrest : Spells rest bs) :
      Spells ('\\' :: 'u' :: '{' :: d :: (ds ++ '}' :: rest)) (String.utf8EncodeChar e ++ bs)

/-- The text between the quotes stands for a text. -/
def IsLegal (body : String) : Prop :=
  ∃ s : String, Spells body.toList (Bytes.ofString s)

/-! ## Characters -/

/-- No escape by a letter begins like a byte. -/
theorem hexDigit?_eq_none_of_letterEscape? {c e : Char} (h : letterEscape? c = some e) :
    hexDigit? c = none := by
  unfold letterEscape? at h
  split at h
  next hc => rw [hc]; decide
  next =>
    split at h
    next hc => rw [hc]; decide
    next =>
      split at h
      next hc => rw [hc]; decide
      next =>
        split at h
        next hc =>
          simp only [Bool.or_eq_true, decide_eq_true_eq] at hc
          rcases hc with (rfl | rfl) | rfl <;> decide
        next => cases h

theorem ne_of_hexDigit? {c d : Char} {v : Nat} (h : hexDigit? c = some v)
    (hd : hexDigit? d = none) : c ≠ d := by
  rintro rfl
  rw [h] at hd
  cases hd

/-- Digits and underscores end no string. -/
theorem isPlainBody_of_hexDigits {n m : Nat} {ds : List Char} (h : HexDigits n ds m) :
    IsPlainBody ds := by
  induction h with
  | nil => exact nofun
  | digit hd _ ih =>
    exact List.forall_mem_cons.2
      ⟨⟨ne_of_hexDigit? hd (by decide), ne_of_hexDigit? hd (by decide)⟩, ih⟩
  | underscore _ _ ih => exact List.forall_mem_cons.2 ⟨by decide, ih⟩

theorem ne_of_isPlain {c : Char} (h : isPlain c = true) : c ≠ '"' ∧ c ≠ '\\' := by
  constructor
  · rintro rfl
    exact absurd h (by decide)
  · rintro rfl
    exact absurd h (by decide)

/-- A legal inside is closed. -/
theorem Spells.isClosedBody {cs : List Char} {bs : Bytes} (h : Spells cs bs) : IsClosedBody cs := by
  induction h with
  | nil => exact SExpr.isClosedBody_nil
  | plain hc _ ih => exact (SExpr.isClosedBody_cons (ne_of_isPlain hc).1 (ne_of_isPlain hc).2).2 ih
  | letter _ _ ih => exact SExpr.isClosedBody_escape.2 ih
  | byte _ hd _ ih =>
    exact SExpr.isClosedBody_escape.2 ((SExpr.isClosedBody_cons (ne_of_hexDigit? hd (by decide))
      (ne_of_hexDigit? hd (by decide))).2 ih)
  | @number d e v n ds rest bs hd hds _ _ ih =>
    have hplain : IsPlainBody ('{' :: d :: (ds ++ ['}'])) := by
      refine List.forall_mem_cons.2 ⟨by decide, List.forall_mem_cons.2 ⟨?_, ?_⟩⟩
      · exact ⟨ne_of_hexDigit? hd (by decide), ne_of_hexDigit? hd (by decide)⟩
      · intro c hc
        rcases List.mem_append.1 hc with hc | hc
        · exact isPlainBody_of_hexDigits hds c hc
        · rw [List.mem_singleton.1 hc]
          decide
    have happend : '{' :: d :: (ds ++ '}' :: rest) = ('{' :: d :: (ds ++ ['}'])) ++ rest := by simp
    rw [SExpr.isClosedBody_escape, happend, hplain.isClosedBody_append]
    exact ih

/-! ## Decoding -/

/-- Numbers in braces are read to the end, from any value of the digits so far. -/
theorem bracedBytes?_append {n m : Nat} {ds : List Char} (h : HexDigits n ds m) {e : Char}
    (he : charOfNat? m = some e) {rest : List Char} {bs : Bytes} (hrest : bytes? rest = some bs) :
    bracedBytes? n (ds ++ '}' :: rest) = some (String.utf8EncodeChar e ++ bs) ∧
      (ds ≠ [] → groupedBytes? n (ds ++ '}' :: rest) = some (String.utf8EncodeChar e ++ bs)) := by
  induction h with
  | nil =>
    refine ⟨?_, fun h => absurd rfl h⟩
    rw [List.nil_append, bracedBytes?]
    simp only [he, hrest, Option.map_some]
  | @digit n v m d ds hd _ ih =>
    have hclose : d ≠ '}' := ne_of_hexDigit? hd (by decide)
    have hgap : d ≠ '_' := ne_of_hexDigit? hd (by decide)
    rw [List.cons_append, bracedBytes?, groupedBytes?]
    · simp only [hd]
      exact ⟨(ih he).1, fun _ => (ih he).1⟩
    · exact hgap
    · exact hclose
    · exact hgap
  | underscore hne _ ih =>
    rw [List.cons_append, bracedBytes?, groupedBytes?]
    exact ⟨(ih he).2 hne, fun _ => (ih he).2 hne⟩

/-- What is spelled is found, one rule at a time. -/
theorem bytes?_of_spells {cs : List Char} {bs : Bytes} (h : Spells cs bs) :
    bytes? cs = some bs := by
  induction h with
  | nil => rw [bytes?]
  | @plain c rest bs hc _ ih =>
    have hescape := (ne_of_isPlain hc).2
    rw [bytes?]
    · simp [hc, ih]
    · exact fun _ _ h => absurd h hescape
    · exact fun _ _ h => absurd h hescape
  | @letter c e rest bs hc _ ih =>
    have hhex : hexDigit? c = none := hexDigit?_eq_none_of_letterEscape? hc
    have hu : c ≠ 'u' := by
      rintro rfl
      cases hc
    rw [bytes?.eq_4 c rest (by simp [hhex]) (fun _ _ h => absurd h hu)]
    simp [hc, ih]
  | @byte c d high low rest bs hc hd _ ih =>
    have hletter : letterEscape? c = none := by
      rw [Option.eq_none_iff_forall_ne_some]
      intro e he
      rw [hexDigit?_eq_none_of_letterEscape? he] at hc
      cases hc
    have hu : c ≠ 'u' := ne_of_hexDigit? hc (by decide)
    rw [bytes?.eq_3 c high d rest hc (fun _ _ h => absurd h hu)]
    simp [hletter, hd, ih]
  | @number d e v n ds rest bs hd hds he _ ih =>
    rw [bytes?]
    simp only [hd]
    exact (bracedBytes?_append hds he ih).1

/-- How a number in braces ends. -/
theorem exists_hexDigits {cs : List Char} {n : Nat} {bs : Bytes} :
    (bracedBytes? n cs = some bs → ∃ ds m e rest bs', cs = ds ++ '}' :: rest ∧
      HexDigits n ds m ∧ charOfNat? m = some e ∧ bytes? rest = some bs' ∧
      bs = String.utf8EncodeChar e ++ bs') ∧
    (groupedBytes? n cs = some bs → ∃ ds m e rest bs', cs = ds ++ '}' :: rest ∧ ds ≠ [] ∧
      HexDigits n ds m ∧ charOfNat? m = some e ∧ bytes? rest = some bs' ∧
      bs = String.utf8EncodeChar e ++ bs') := by
  induction cs generalizing n with
  | nil =>
    rw [bracedBytes?, groupedBytes?]
    exact ⟨nofun, nofun⟩
  | cons c cs ih =>
    constructor
    · intro h
      rw [bracedBytes?.eq_def] at h
      split at h
      next => contradiction
      next rest heq =>
        obtain ⟨rfl, rfl⟩ := List.cons.inj heq
        split at h
        next e he =>
          obtain ⟨bs', hbs', rfl⟩ := Option.map_eq_some_iff.1 h
          exact ⟨[], n, e, cs, bs', rfl, .nil, he, hbs', rfl⟩
        next => cases h
      next rest heq =>
        obtain ⟨rfl, rfl⟩ := List.cons.inj heq
        obtain ⟨ds, m, e, rest, bs', rfl, hne, hds, hrest⟩ := ih.2 h
        exact ⟨'_' :: ds, m, e, rest, bs', rfl, .underscore hne hds, hrest⟩
      next d rest _ _ heq =>
        obtain ⟨rfl, rfl⟩ := List.cons.inj heq
        split at h
        next v hv =>
          obtain ⟨ds, m, e, rest, bs', rfl, hds, hrest⟩ := ih.1 h
          exact ⟨c :: ds, m, e, rest, bs', rfl, .digit hv hds, hrest⟩
        next => cases h
    · intro h
      rw [groupedBytes?.eq_def] at h
      split at h
      next => contradiction
      next rest heq =>
        obtain ⟨rfl, rfl⟩ := List.cons.inj heq
        obtain ⟨ds, m, e, rest, bs', rfl, hne, hds, hrest⟩ := ih.2 h
        exact ⟨'_' :: ds, m, e, rest, bs', rfl, nofun, .underscore hne hds, hrest⟩
      next d rest _ heq =>
        obtain ⟨rfl, rfl⟩ := List.cons.inj heq
        split at h
        next v hv =>
          obtain ⟨ds, m, e, rest, bs', rfl, hds, hrest⟩ := ih.1 h
          exact ⟨c :: ds, m, e, rest, bs', rfl, nofun, .digit hv hds, hrest⟩
        next => cases h

/-- What is found is spelled. -/
theorem spells_of_bytes? {cs : List Char} {bs : Bytes} (h : bytes? cs = some bs) :
    Spells cs bs := by
  -- An escape takes several characters at once, so the induction is on the length.
  induction hlength : cs.length using Nat.strong_induction_on generalizing cs bs with
  | _ length ih =>
    subst hlength
    rw [bytes?.eq_def] at h
    split at h
    next =>
      cases h
      exact .nil
    next d rest =>
      split at h
      next v hv =>
        obtain ⟨ds, n, e, rest, bs', rfl, hds, he, hrest, rfl⟩ := exists_hexDigits.1 h
        have hshorter : rest.length < ('\\' :: 'u' :: '{' :: d :: (ds ++ '}' :: rest)).length := by
          simp only [List.length_cons, List.length_append]
          omega
        exact .number hv hds he (ih _ hshorter hrest rfl)
      next => cases h
    next c rest _ =>
      split at h
      next e he =>
        obtain ⟨bs', hrest, rfl⟩ := Option.map_eq_some_iff.1 h
        exact .letter he (ih _ (by simp only [List.length_cons]; omega) hrest rfl)
      next =>
        split at h
        next high d rest hhigh _ =>
          split at h
          next low hlow =>
            obtain ⟨bs', hrest, rfl⟩ := Option.map_eq_some_iff.1 h
            exact .byte hhigh hlow (ih _ (by simp only [List.length_cons]; omega) hrest rfl)
          next => cases h
        next => cases h
    next c rest _ _ =>
      split at h
      next hc =>
        obtain ⟨bs', hrest, rfl⟩ := Option.map_eq_some_iff.1 h
        exact .plain hc (ih _ (by simp only [List.length_cons]; omega) hrest rfl)
      next => cases h

/-- **The bytes of a string literal** are those that it spells. -/
theorem bytes?_eq_some_iff {cs : List Char} {bs : Bytes} : bytes? cs = some bs ↔ Spells cs bs :=
  ⟨spells_of_bytes?, bytes?_of_spells⟩

/-- A text is found from its UTF-8 form only. -/
theorem fromUTF8?_eq_some_iff {b : ByteArray} {s : String} :
    String.fromUTF8? b = some s ↔ b = s.toByteArray := by
  constructor
  · intro h
    unfold String.fromUTF8? at h
    split at h
    next =>
      cases h
      rfl
    next => cases h
  · rintro rfl
    rw [String.fromUTF8?, dif_pos s.isValidUTF8]
    rfl

theorem toString?_eq_some_iff {bs : Bytes} {s : String} :
    Bytes.toString? bs = some s ↔ bs = Bytes.ofString s := by
  have hbytes : (⟨bs.toArray⟩ : ByteArray) = bs.toByteArray :=
    ByteArray.ext List.data_toByteArray.symm
  have hencode : (Bytes.ofString s).toByteArray = s.toByteArray := s.utf8Encode_toList
  rw [Bytes.toString?, fromUTF8?_eq_some_iff, hbytes, ← hencode, List.toByteArray_inj]

/-- **The text of a string literal** is the one whose UTF-8 form it spells. -/
theorem decode?_eq_some_iff {body s : String} :
    decode? body = some s ↔ Spells body.toList (Bytes.ofString s) := by
  simp only [decode?, Option.bind_eq_some_iff, bytes?_eq_some_iff, toString?_eq_some_iff,
    exists_eq_right]

/-- Decoding succeeds exactly on legal insides. -/
theorem isSome_decode?_iff {body : String} : (decode? body).isSome = true ↔ IsLegal body := by
  simp only [Option.isSome_iff_exists, decode?_eq_some_iff, IsLegal]

/-! ## Names -/

/-- Plain characters spell themselves. -/
theorem spells_of_isPlain {cs : List Char} (h : ∀ c ∈ cs, isPlain c = true) :
    Spells cs (cs.flatMap String.utf8EncodeChar) := by
  induction cs with
  | nil => exact .nil
  | cons c cs ih =>
    obtain ⟨hc, hcs⟩ := List.forall_mem_cons.1 h
    exact .plain hc (ih hcs)

/-- The characters of names are plain. -/
theorem isPlain_of_isWordChar {c : Char} (h : Grammar.isWordChar c = true) : isPlain c = true := by
  have hquote : c ≠ '"' := by
    rintro rfl
    exact absurd h (by decide)
  have hescape : c ≠ '\\' := by
    rintro rfl
    exact absurd h (by decide)
  have hrange := Grammar.toNat_range_of_isWordChar h
  simp [isPlain, hquote, hescape]
  omega

/-- A name of word characters spells itself. -/
theorem decode?_of_isId {s : String} (h : IsId s) : decode? s = some s :=
  decode?_eq_some_iff.2 (spells_of_isPlain fun c hc => isPlain_of_isWordChar (h.2 c hc))

theorem isLegal_of_isId {s : String} (h : IsId s) : IsLegal s :=
  ⟨s, decode?_eq_some_iff.1 (decode?_of_isId h)⟩

/-! ## Escapes -/

/-- The number of bytes in the UTF-8 form of the characters. -/
def size (cs : List Char) : Nat := (cs.flatMap String.utf8EncodeChar).length

theorem size_cons (c : Char) (cs : List Char) : size (c :: cs) = c.utf8Size + size cs := by
  rw [size, List.flatMap_cons, List.length_append, String.length_utf8EncodeChar, size]

theorem size_append (cs ds : List Char) : size (cs ++ ds) = size cs + size ds := by
  rw [size, List.flatMap_append, List.length_append, size, size]

/-- Every character has a byte. -/
theorem eq_nil_of_size {cs : List Char} (h : size cs = 0) : cs = [] := by
  cases cs with
  | nil => rfl
  | cons c cs =>
    have hpos := c.utf8Size_pos
    rw [size_cons] at h
    omega

/-- The characters with an escape by a letter have one byte. -/
theorem utf8Size_of_letterEscape? {c e : Char} (h : letterEscape? c = some e) :
    e.utf8Size = 1 := by
  unfold letterEscape? at h
  split at h
  next => cases h; rfl
  next =>
    split at h
    next => cases h; rfl
    next =>
      split at h
      next => cases h; rfl
      next =>
        split at h
        next hc =>
          cases h
          simp only [Bool.or_eq_true, decide_eq_true_eq] at hc
          rcases hc with (rfl | rfl) | rfl <;> rfl
        next => cases h

/-- Escapes are longer than what they stand for: what is spelled is not longer than its spelling,
and shorter if there is an escape. -/
theorem Spells.length_le_size {cs : List Char} {bs : Bytes} (h : Spells cs bs) :
    bs.length ≤ size cs ∧ (bs.length = size cs → IsPlainBody cs) := by
  induction h with
  | nil => exact ⟨Nat.zero_le _, fun _ => nofun⟩
  | plain hc _ ih =>
    rw [List.length_append, String.length_utf8EncodeChar, size_cons]
    refine ⟨by omega, fun heq => List.forall_mem_cons.2 ⟨ne_of_isPlain hc, ih.2 (by omega)⟩⟩
  | @letter c e rest bs hc _ ih =>
    have hescape := Char.utf8Size_pos '\\'
    have hletter := c.utf8Size_pos
    have he := utf8Size_of_letterEscape? hc
    rw [List.length_append, String.length_utf8EncodeChar, size_cons, size_cons]
    exact ⟨by omega, fun heq => by omega⟩
  | @byte c d high low rest bs _ _ _ ih =>
    have hescape := Char.utf8Size_pos '\\'
    have hhigh := c.utf8Size_pos
    have hlow := d.utf8Size_pos
    rw [List.length_cons, size_cons, size_cons, size_cons]
    exact ⟨by omega, fun heq => by omega⟩
  | @number d e v n ds rest bs _ _ _ _ ih =>
    -- a character has at most four bytes, and there are five around the digits
    have hd := d.utf8Size_pos
    have he := e.utf8Size_le_four
    have hends : Char.utf8Size '\\' = 1 ∧ Char.utf8Size 'u' = 1 ∧ Char.utf8Size '{' = 1 ∧
      Char.utf8Size '}' = 1 := by decide
    rw [List.length_append, String.length_utf8EncodeChar]
    simp only [size_cons, size_append]
    exact ⟨by omega, fun heq => by omega⟩

/-- Without a quote and a backslash, only the rule of plain characters applies. -/
theorem Spells.forall_isPlain {cs : List Char} {bs : Bytes} (h : Spells cs bs)
    (hplain : IsPlainBody cs) : ∀ c ∈ cs, isPlain c = true := by
  induction h with
  | nil => exact nofun
  | plain hc _ ih => exact List.forall_mem_cons.2 ⟨hc, ih (List.forall_mem_cons.1 hplain).2⟩
  | letter | byte | number => exact absurd rfl (List.forall_mem_cons.1 hplain).1.2

/-- A text without escapes spells itself. -/
theorem decode?_of_isPlainBody {body s : String} (hplain : IsPlainBody body.toList)
    (h : decode? body = some s) : s = body := by
  have hself : decode? body = some body := decode?_eq_some_iff.2
    (spells_of_isPlain ((decode?_eq_some_iff.1 h).forall_isPlain hplain))
  rw [hself] at h
  exact (Option.some.inj h).symm

/-- Only a text without escapes is spelled by itself, or by an end of itself. -/
theorem isPlainBody_of_isSuffix {body s : String} (hsuffix : body.toList <:+ s.toList)
    (h : decode? body = some s) : IsPlainBody s.toList := by
  obtain ⟨front, hfront⟩ := hsuffix
  obtain ⟨hle, hplain⟩ := (decode?_eq_some_iff.1 h).length_le_size
  have hlength : (Bytes.ofString s).length = size front + size body.toList := by
    rw [← size_append, hfront]
    rfl
  -- the end is as long as the whole, so it is the whole
  have hnil : front = [] := eq_nil_of_size (by omega)
  rw [← hfront, hnil]
  exact hplain (by rw [hlength, hnil]; exact Nat.zero_add _)

end Kelp.Wat.StringBody
