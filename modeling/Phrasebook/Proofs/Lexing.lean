import Phrasebook.Json.Grammar

/-!
# Reading a JSON text

Each token is read from any of the ways to write it (`scan_token`), so a text
that is a row of tokens is cut into these tokens (`Row.scan`), and a text that
writes a tree is read as this tree (`Tree.WrittenAs.readText`). The units of a
string in a text are 16 bits wide, so what is read as the text of a string is
what it says (`spells_of_textOf`, `Spells.textOf`).
-/

namespace Phrasebook.Json

-- ---------------------------------------------------------------------------
-- Success
-- ---------------------------------------------------------------------------

theorem map_eq_ok {x : Except ε α} {f : α → β} {b : β} :
    x.map f = .ok b ↔ ∃ a, x = .ok a ∧ f a = b := by
  cases x <;> simp [Except.map]

theorem sound_eq_ok {x : Except Defect α} {a : α} : sound x = .ok a ↔ x = .ok a := by
  cases x <;> simp [sound]

theorem mapM_eq_ok {f : α → Except ε β} (h : List.Forall₂ (fun a b => f a = .ok b) as bs) :
    as.mapM f = .ok bs := by
  induction h with
  | nil => rfl
  | cons h _ ih => rw [List.mapM_cons, h, ih]; rfl

-- ---------------------------------------------------------------------------
-- Strings
-- ---------------------------------------------------------------------------

theorem HexDigit.lt (h : HexDigit c n) : n < 16 := by
  rcases h with h | h <;> exact (List.getElem?_eq_some_iff.mp h).1

theorem HexDigit.hexValue? (h : HexDigit c n) : hexValue? c = some n := by
  have hlower : ∀ n < 16, (lowerHex[n]?.bind Json.hexValue?) = some n := by decide
  have hupper : ∀ n < 16, (upperHex[n]?.bind Json.hexValue?) = some n := by decide
  have hlt := h.lt
  rcases h with h | h
  · simpa [h] using hlower n hlt
  · simpa [h] using hupper n hlt

theorem readEscape_short (h : (letter, c) ∈ shortEscapes) (rest : List Char) :
    readEscape (letter :: rest) = .ok (.char c, rest) := by
  have hletter : ∀ pair ∈ shortEscapes, pair.1 ≠ 'u' ∧ escaped? pair.1 = some pair.2 := by decide
  obtain ⟨hne, hsome⟩ := hletter _ h
  simp only [readEscape, if_neg hne, hsome]

theorem readEscape_unit (ha : HexDigit a i) (hb : HexDigit b j) (hc : HexDigit c k)
    (hd : HexDigit d l) (rest : List Char) :
    readEscape ('u' :: a :: b :: c :: d :: rest) =
      .ok (.unit (i * 0x1000 + j * 0x100 + k * 0x10 + l), rest) := by
  have hvalue : ((i * 16 + j) * 16 + k) * 16 + l = i * 0x1000 + j * 0x100 + k * 0x10 + l := by omega
  simp [readEscape, readUnit, ha.hexValue?, hb.hexValue?, hc.hexValue?, hd.hexValue?, hvalue]

theorem read_escape (h : readEscape s = .ok (part, rest)) :
    Quotation.read ('\\' :: s) = Quotation.after part (Quotation.read rest) := by
  rw [Quotation.read]
  simp only [Char.reduceEq, if_false, if_true]
  split
  · next hread => cases h.symm.trans hread; rfl
  · next hread => cases h.symm.trans hread

theorem Part.WrittenAs.read (h : part.WrittenAs w) (s : List Char) :
    Quotation.read (w ++ s) = Quotation.after part (Quotation.read s) := by
  cases h with
  | raw hquote hbackslash hcontrol =>
    rw [List.singleton_append, Quotation.read, if_neg hquote, if_neg hbackslash,
      if_neg (Nat.not_lt.mpr hcontrol)]
  | short h => exact read_escape (readEscape_short h s)
  | unit ha hb hc hd => exact read_escape (readEscape_unit ha hb hc hd s)

theorem PartsWrittenAs.read (h : PartsWrittenAs parts s) (rest : List Char) :
    Quotation.read (s ++ '"' :: rest) = (⟨parts, none⟩, rest) := by
  induction h with
  | nil => simp [Quotation.read]
  | cons h _ ih => rw [List.append_assoc, h.read, ih, Quotation.after]

-- ---------------------------------------------------------------------------
-- Numerals
-- ---------------------------------------------------------------------------

theorem IsDigits.exists_cons (h : IsDigits s) : ∃ c rest, s = c :: rest ∧ c.isDigit := by
  obtain ⟨c, rest, rfl⟩ := List.exists_cons_of_ne_nil h.1
  exact ⟨c, rest, rfl, h.2 c List.mem_cons_self⟩

namespace Numeral

variable {whole digits f e s : List Char} {fraction : Option (List Char)}
  {exponent : Option (Bool × List Char)}

theorem readDigits_append (h : IsDigits digits) (hs : ∀ c ∈ s.head?, c.isDigit = false) :
    readDigits (digits ++ s) = .ok (digits, s) := by
  have hstop : s.takeWhile Char.isDigit = [] ∧ s.dropWhile Char.isDigit = s := by
    cases s with
    | nil => exact ⟨rfl, rfl⟩
    | cons c s => simp [hs c rfl]
  rw [readDigits, List.takeWhile_append_of_pos h.2, List.dropWhile_append_of_pos h.2, hstop.1,
    hstop.2, List.append_nil, if_neg h.1]

theorem readWhole_append (h : IsDigits whole) (hzero : whole.head? = some '0' → whole = ['0'])
    (hs : ∀ c ∈ s.head?, c.isDigit = false) : readWhole (whole ++ s) = .ok (whole, s) := by
  have hlone : ¬ (whole.head? = some '0' ∧ 1 < whole.length) := by
    rintro ⟨hhead, hlength⟩
    rw [hzero hhead] at hlength
    exact Nat.lt_irrefl 1 hlength
  simp only [readWhole, readDigits_append h hs, bind, Except.bind, if_neg hlone]

theorem FractionWrittenAs.read (h : FractionWrittenAs fraction f)
    (hs : ∀ c ∈ s.head?, c.isDigit = false ∧ c ≠ '.') :
    readFraction (f ++ s) = .ok (fraction, s) := by
  cases h with
  | none =>
    cases s with
    | nil => rfl
    | cons c s => simp [readFraction, (hs c rfl).2]
  | some h =>
    rw [List.cons_append, readFraction, readDigits_append h fun c hc => (hs c hc).1]
    rfl

theorem readSign_append (h : IsDigits digits) : readSign (digits ++ s) = (false, digits ++ s) := by
  obtain ⟨c, rest, rfl, hc⟩ := h.exists_cons
  have hminus : c ≠ '-' := by rintro rfl; exact absurd hc (by decide)
  have hplus : c ≠ '+' := by rintro rfl; exact absurd hc (by decide)
  simp [readSign, hminus, hplus]

theorem readExponent_mark {negative : Bool} (hmark : mark = 'e' ∨ mark = 'E')
    (hsign : readSign rest = (negative, digits ++ s)) (h : IsDigits digits)
    (hs : ∀ c ∈ s.head?, c.isDigit = false) :
    readExponent (mark :: rest) = .ok (some (negative, digits), s) := by
  rw [readExponent, if_pos hmark, hsign, readDigits_append h hs]
  rfl

theorem ExponentWrittenAs.read (h : ExponentWrittenAs exponent e) (hs : Breaks s) :
    readExponent (e ++ s) = .ok (exponent, s) := by
  have hdigit : ∀ c ∈ s.head?, c.isDigit = false := fun c hc => (hs c hc).1
  cases h with
  | none =>
    cases s with
    | nil => rfl
    | cons c s =>
      obtain ⟨-, -, hsmall, hlarge⟩ := hs c rfl
      rw [List.nil_append, readExponent, if_neg (not_or.mpr ⟨hsmall, hlarge⟩)]
  | bare hmark h => exact readExponent_mark hmark (readSign_append h) h hdigit
  | plus hmark h | minus hmark h => exact readExponent_mark hmark rfl h hdigit

theorem FractionWrittenAs.head_append (h : FractionWrittenAs fraction f)
    (hs : ∀ c ∈ s.head?, c.isDigit = false) : ∀ c ∈ (f ++ s).head?, c.isDigit = false := by
  cases h with
  | none => exact hs
  | some => rintro _ ⟨⟩; rfl

theorem ExponentWrittenAs.head_append (h : ExponentWrittenAs exponent e) (hs : Breaks s) :
    ∀ c ∈ (e ++ s).head?, c.isDigit = false ∧ c ≠ '.' := by
  have hmarked : ∀ mark : Char, mark = 'e' ∨ mark = 'E' → mark.isDigit = false ∧ mark ≠ '.' := by
    rintro mark (rfl | rfl) <;> exact ⟨rfl, by decide⟩
  cases h with
  | none => exact fun c hc => ⟨(hs c hc).1, (hs c hc).2.1⟩
  | bare hmark | plus hmark | minus hmark => rintro _ ⟨⟩; exact hmarked _ hmark

theorem readUnsigned_append (negative : Bool) (hwhole : IsDigits whole)
    (hzero : whole.head? = some '0' → whole = ['0']) (hf : FractionWrittenAs fraction f)
    (he : ExponentWrittenAs exponent e) (hs : Breaks s) :
    readUnsigned negative (whole ++ (f ++ (e ++ s))) =
      .ok (⟨negative, whole, fraction, exponent⟩, s) := by
  have hexponent := he.head_append hs
  have hfraction := hf.head_append fun c hc => (hexponent c hc).1
  simp only [readUnsigned, readWhole_append hwhole hzero hfraction, hf.read hexponent, he.read hs,
    bind, Except.bind]

end Numeral

-- ---------------------------------------------------------------------------
-- Tokens
-- ---------------------------------------------------------------------------

namespace Token

theorem scan_blank (h : isBlank c) (s : List Char) : scan (c :: s) = scan s := by
  rw [scan, if_pos h]

theorem scan_one (hblank : isBlank c = false) (h : readOne c s = (t, rest)) :
    scan (c :: s) = t :: scan rest := by
  rw [scan, hblank, if_neg Bool.false_ne_true, h]

theorem isBlank_iff : isBlank c = true ↔ c ∈ blanks := by simp [isBlank, blanks, or_assoc]

theorem isBlank_of_isDigit (h : c.isDigit) : isBlank c = false := by
  have hblanks : ∀ b ∈ blanks, b.isDigit = false := by simp [blanks, Char.isDigit]
  refine Bool.eq_false_iff.mpr fun hblank => ?_
  exact Bool.false_ne_true ((hblanks c (isBlank_iff.mp hblank)).symm.trans h)

theorem readOne_of_isDigit (h : c.isDigit) (s : List Char) :
    readOne c s = readNumber false (c :: s) := by
  unfold readOne
  split
  case h_12 => rw [if_pos h]
  all_goals exact absurd h (by decide)

theorem scan_number (h : n.WrittenAs w) (hs : Breaks s) :
    scan (w ++ s) = .number (.ok n) :: scan s := by
  cases h with
  | @intro negative whole f e fraction exponent hwhole hzero hf he =>
    have hread := Numeral.readUnsigned_append negative hwhole hzero hf he hs
    have hnumber : readNumber negative (whole ++ (f ++ (e ++ s))) =
        (.number (.ok ⟨negative, whole, fraction, exponent⟩), s) := by
      rw [readNumber, hread]
    rw [List.append_assoc, List.append_assoc, List.append_assoc]
    cases negative with
    | true => exact scan_one rfl hnumber
    | false =>
      obtain ⟨c, rest, rfl, hc⟩ := hwhole.exists_cons
      exact scan_one (isBlank_of_isDigit hc) ((readOne_of_isDigit hc _).trans hnumber)

theorem scan_token (h : t.WrittenAs w) (hnumber : ∀ n, t = .number n → Breaks s) :
    scan (w ++ s) = t :: scan s := by
  cases h with
  | beginObject | endObject | beginList | endList | comma | colon => exact scan_one rfl rfl
  | null | true | false => exact scan_one rfl (by simp [readOne, readWord])
  | number h => exact scan_number h (hnumber _ rfl)
  | string h =>
    rw [List.cons_append, List.append_assoc]
    exact scan_one rfl (by rw [readOne, List.singleton_append, h.read])

end Token

theorem Row.scan (h : Row ts s) : Token.scan s = ts := by
  induction h with
  | nil => rw [Token.scan]
  | blank hc _ ih => rw [Token.scan_blank (Token.isBlank_iff.mpr hc), ih]
  | token ht hnumber _ ih => rw [Token.scan_token ht hnumber, ih]

-- ---------------------------------------------------------------------------
-- What a string says
-- ---------------------------------------------------------------------------

theorem toNat_ofNat (h : n.isValidChar) : (Char.ofNat n).toNat = n := by
  rw [Char.ofNat, dif_pos h]
  rfl

/-- No character is half of a pair. -/
theorem toNat_char (c : Char) : c.toNat < 0xd800 ∨ 0xe000 ≤ c.toNat ∧ c.toNat < 0x110000 := by
  rcases c.valid with h | ⟨hlow, hhigh⟩
  · exact .inl h
  · exact .inr ⟨Nat.succ_le_of_lt hlow, hhigh⟩

theorem isTrail_iff : isTrail n = true ↔ 0xdc00 ≤ n ∧ n < 0xe000 := by simp [isTrail]

theorem isLead_iff : isLead n = true ↔ 0xd800 ≤ n ∧ n < 0xdc00 := by simp [isLead]

theorem toNat_pair (hlead : isLead n) (htrail : isTrail m) :
    (pair n m).toNat = 0x10000 + (n - 0xd800) * 0x400 + (m - 0xdc00) := by
  rw [isLead_iff] at hlead
  rw [isTrail_iff] at htrail
  exact toNat_ofNat (.inr (by omega))

theorem textOf_unit (htrail : ¬ isTrail n) (hlead : ¬ isLead n) :
    textOf defect (.unit n :: parts) = (textOf defect parts).map (Char.ofNat n :: ·) := by
  rw [textOf.eq_def]
  simp only [if_neg htrail, if_neg hlead]

theorem textOf_pair (hlead : isLead n) (htrail : isTrail m) :
    textOf defect (.unit n :: .unit m :: parts) =
      (textOf defect parts).map (pair n m :: ·) := by
  have hnot : ¬ isTrail n := by
    rw [isLead_iff] at hlead
    rw [isTrail_iff]
    omega
  rw [textOf, if_neg hnot, if_pos hlead, if_pos htrail]

theorem Spells.textOf (h : Spells parts s) : textOf none parts = .ok s := by
  induction h with
  | nil => rfl
  | char c _ ih => rw [Json.textOf, ih]; rfl
  | unit c hc _ ih =>
    have hchar := toNat_char c
    have htrail : ¬ isTrail c.toNat := by rw [isTrail_iff]; omega
    have hlead : ¬ isLead c.toNat := by rw [isLead_iff]; omega
    rw [textOf_unit htrail hlead, ih, Char.ofNat_toNat]
    rfl
  | pair c hc _ ih =>
    have hchar := toNat_char c
    have hlead : isLead (0xd800 + (c.toNat - 0x10000) / 0x400) := by rw [isLead_iff]; omega
    have htrail : isTrail (0xdc00 + (c.toNat - 0x10000) % 0x400) := by rw [isTrail_iff]; omega
    have hpair : Json.pair (0xd800 + (c.toNat - 0x10000) / 0x400)
        (0xdc00 + (c.toNat - 0x10000) % 0x400) = c := by
      rw [← Char.toNat_inj, toNat_pair hlead htrail]
      omega
    rw [textOf_pair hlead htrail, ih, hpair]
    rfl

theorem spells_of_textOf (h : textOf defect parts = .ok s)
    (hunits : ∀ n, .unit n ∈ parts → n < 0x10000) : Spells parts s := by
  -- The remaining cases are the problems: a defect after the parts, and halves of pairs.
  fun_induction textOf defect parts generalizing s with
  | case1 => cases h; exact .nil
  | case3 c parts ih =>
    obtain ⟨rest, hrest, rfl⟩ := map_eq_ok.mp h
    exact .char c (ih hrest fun n hn => hunits n (.tail _ hn))
  | case6 n _ hlead m parts htrail ih =>
    obtain ⟨rest, hrest, rfl⟩ := map_eq_ok.mp h
    have hspells := ih hrest fun k hk => hunits k (.tail _ (.tail _ hk))
    have hpair := toNat_pair hlead htrail
    rw [isLead_iff] at hlead
    rw [isTrail_iff] at htrail
    have hn : n = 0xd800 + ((pair n m).toNat - 0x10000) / 0x400 := by omega
    have hm : m = 0xdc00 + ((pair n m).toNat - 0x10000) % 0x400 := by omega
    have hunits := hspells.pair (pair n m) (by omega)
    rwa [← hn, ← hm] at hunits
  | case9 n parts htrail hlead ih =>
    obtain ⟨rest, hrest, rfl⟩ := map_eq_ok.mp h
    have hspells := ih hrest fun k hk => hunits k (.tail _ hk)
    have hn := hunits n List.mem_cons_self
    rw [isLead_iff] at hlead
    rw [isTrail_iff] at htrail
    have hchar : (Char.ofNat n).toNat = n := toNat_ofNat (by unfold Nat.isValidChar; omega)
    have hunit := hspells.unit (Char.ofNat n) (by rwa [hchar])
    rwa [hchar] at hunit
  | case2 | case4 | case5 | case7 | case8 => cases h

theorem Part.WrittenAs.unit_lt (h : (Part.unit n).WrittenAs w) : n < 0x10000 := by
  cases h with
  | unit ha hb hc hd =>
    have := ha.lt
    have := hb.lt
    have := hc.lt
    have := hd.lt
    omega

theorem PartsWrittenAs.unit_lt (h : PartsWrittenAs parts s) :
    ∀ n, .unit n ∈ parts → n < 0x10000 := by
  induction h with
  | nil => simp
  | cons h _ ih =>
    intro n hn
    cases hn with
    | head => exact h.unit_lt
    | tail _ hn => exact ih n hn

theorem Row.unit_lt (h : Row ts s) :
    ∀ q, .string q ∈ ts → ∀ n, .unit n ∈ q.parts → n < 0x10000 := by
  induction h with
  | nil => simp
  | blank _ _ ih => exact ih
  | token ht _ _ ih =>
    intro q hq
    cases hq with
    | head =>
      cases ht with
      | string h => exact h.unit_lt
    | tail _ hq => exact ih q hq

theorem Quotation.Says.text (h : Quotation.Says q s) : q.text = .ok s := by
  rw [Quotation.text, h.1, h.2.textOf, Except.map, String.ofList_toList]

theorem Quotation.says_of_text (h : Quotation.text q = .ok s) (hdefect : q.defect = none)
    (hunits : ∀ n, .unit n ∈ q.parts → n < 0x10000) : q.Says s := by
  obtain ⟨chars, hchars, rfl⟩ := map_eq_ok.mp h
  refine ⟨hdefect, ?_⟩
  rw [String.toList_ofList]
  exact spells_of_textOf hchars hunits

-- ---------------------------------------------------------------------------
-- Trees
-- ---------------------------------------------------------------------------

theorem Tree.Says.text (h : Tree.Says t s) : t.text = .ok s := by
  obtain ⟨q, rfl, hq⟩ := h
  rw [Tree.text, hq.text, sound]

theorem Tree.Lists.texts (h : Tree.Lists t ss) : t.texts = .ok ss := by
  obtain ⟨items, rfl, hitems⟩ := h
  rw [Tree.texts, mapM_eq_ok (hitems.imp fun _ _ => Tree.Says.text)]
  rfl

namespace Tree

mutual

/-- A sound value is passed over, whatever it is. -/
theorem skip_of_sound : (t : Tree) → t.Sound → t.skip = .ok ()
  | .null, _ | .bool _, _ => by rw [skip]
  | .number _, ⟨_, h⟩ => by rw [h, skip]
  | .string q, h => by
    have hdefect : q.defect = none := h
    rw [skip, hdefect, atEnd]
  | .list items _, ⟨hitems, hstop⟩ => by
    rw [skip, skipItems_of_sound items hitems, hstop]
    rfl
  | .object fields _, ⟨hfields, hstop⟩ => by
    rw [skip, skipFields_of_sound fields hfields, hstop]
    rfl
  | .broken _, h => (h : False).elim

theorem skipItems_of_sound : (items : List Tree) → SoundItems items → skipItems items = .ok ()
  | [], _ => by rw [skipItems]
  | t :: items, ⟨ht, hitems⟩ => by
    rw [skipItems, skip_of_sound t ht, skipItems_of_sound items hitems]
    rfl

theorem skipFields_of_sound :
    (fields : List (Quotation × Tree)) → SoundFields fields → skipFields fields = .ok ()
  | [], _ => by rw [skipFields]
  | (key, t) :: fields, ⟨hkey, ht, hfields⟩ => by
    rw [skipFields, hkey, skip_of_sound t ht, skipFields_of_sound fields hfields]
    rfl

end

variable {t : Tree} {text : String} {fields : List (Quotation × Tree)}

theorem WrittenAs.readText (h : t.WrittenAs text) (read : Tree → Except Error α) :
    Json.readText read text = read t := by
  have hvalue : readValue [] (Token.scan text.toList) = (t, []) := by
    rw [h.row.scan, ← List.append_nil t.tokens, readValue_tokens [] [] t h.sound, readMore]
  rw [Json.readText, hvalue]
  dsimp only
  cases read t <;> rfl

theorem key_mem_fieldTokens (h : field ∈ fields) : .string field.1 ∈ fieldTokens fields := by
  induction fields with
  | nil => cases h
  | cons first fields ih =>
    rw [fieldTokens]
    cases h with
    | head => simp
    | tail _ h => simp [ih h]

theorem key_mem_tokens (h : field ∈ fields) : .string field.1 ∈ (object fields stop).tokens := by
  cases fields with
  | nil => cases h
  | cons first fields =>
    rw [tokens]
    cases h with
    | head => simp
    | tail _ h => simp [key_mem_fieldTokens h]

/-- What is read as the name of a field is what its key says. -/
theorem WrittenAs.key_text_iff (h : (object fields none).WrittenAs text) (hfield : field ∈ fields) :
    field.1.text = .ok name ↔ field.1.Says name where
  mp htext :=
    Quotation.says_of_text htext (soundFields_iff.mp h.sound.1 field hfield).1
      (h.row.unit_lt _ (key_mem_tokens hfield))
  mpr := Quotation.Says.text

end Tree

end Phrasebook.Json
