import Phrasebook.Json.Grammar

/-!
# What is written is a JSON text

Each part of a string is written in one of the ways there are, and so is a tree
of whose tokens this is true (`writtenAs_written`). A numeral never runs on into
what is written after it, since a tree goes on with a comma or a bracket there.
-/

namespace Phrasebook.Json

-- ---------------------------------------------------------------------------
-- Strings
-- ---------------------------------------------------------------------------

theorem hexDigit_digitChar (h : n < 16) : HexDigit (Nat.digitChar n) n := by
  have hlower : ∀ n < 16, lowerHex[n]? = some (Nat.digitChar n) := by decide
  exact .inl (hlower n h)

theorem writtenAs_unit (h : n < 0x10000) : (Part.unit n).WrittenAs (Part.unit n).chars := by
  have hdigit (m : Nat) : HexDigit (Nat.digitChar (m % 16)) (m % 16) :=
    hexDigit_digitChar (Nat.mod_lt m (by decide))
  have hdigits :=
    Part.WrittenAs.unit (hdigit (n / 0x1000)) (hdigit (n / 0x100)) (hdigit (n / 0x10)) (hdigit n)
  have hvalue : n / 0x1000 % 16 * 0x1000 + n / 0x100 % 16 * 0x100 + n / 0x10 % 16 * 0x10 + n % 16 =
      n := by omega
  rwa [hvalue] at hdigits

theorem writtenAs_char (h : 0x20 ≤ c.toNat ∨ c ∈ ['\x08', '\x0c', '\n', '\r', '\t']) :
    (Part.char c).WrittenAs (Part.char c).chars := by
  unfold Part.chars
  split
  case h_1 heq => cases heq
  case h_9 hquote hbackslash hbackspace hfeed hnewline hreturn htab heq =>
    cases heq
    refine .raw (fun h => hquote (h ▸ rfl)) (fun h => hbackslash (h ▸ rfl)) (h.resolve_right ?_)
    simp only [List.mem_cons, List.not_mem_nil, or_false]
    rintro (rfl | rfl | rfl | rfl | rfl)
    · exact hbackspace rfl
    · exact hfeed rfl
    · exact hnewline rfl
    · exact hreturn rfl
    · exact htab rfl
  -- A character with a letter of its own.
  all_goals next heq => cases heq; exact .short (by decide)

theorem writtenAs_ofChar (c : Char) : (Part.ofChar c).WrittenAs (Part.ofChar c).chars := by
  unfold Part.ofChar
  split
  · next h => exact writtenAs_unit (by omega)
  · next h => exact writtenAs_char (by rwa [not_and_or, Nat.not_lt, not_not] at h)

theorem spells_ofChar (s : List Char) : Spells (s.map Part.ofChar) s := by
  induction s with
  | nil => exact .nil
  | cons c s ih =>
    rw [List.map_cons, Part.ofChar]
    split
    · next h => exact .unit c (by omega) ih
    · exact .char c ih

theorem partsWrittenAs_chars (h : ∀ part ∈ parts, part.WrittenAs part.chars) :
    PartsWrittenAs parts (parts.flatMap Part.chars) := by
  induction parts with
  | nil => exact .nil
  | cons part parts ih =>
    rw [List.flatMap_cons]
    exact .cons (h part List.mem_cons_self) (ih fun other hother => h other (.tail _ hother))

theorem Quotation.says_ofText (s : String) : (Quotation.ofText s).Says s :=
  ⟨rfl, spells_ofChar s.toList⟩

theorem Quotation.writtenAs_ofText (s : String) :
    (Token.string (.ofText s)).WrittenAs (Token.string (.ofText s)).chars := by
  refine .string (partsWrittenAs_chars fun part hpart => ?_)
  obtain ⟨c, -, rfl⟩ := List.mem_map.mp hpart
  exact writtenAs_ofChar c

-- ---------------------------------------------------------------------------
-- Trees
-- ---------------------------------------------------------------------------

def Token.isNumber : Token → Bool
  | .number _ => true
  | _ => false

/-- Only a numeral can run on. -/
theorem Row.symbol (ht : t.WrittenAs w) (hsymbol : t.isNumber = false) (h : Row ts s) :
    Row (t :: ts) (w ++ s) := by
  refine .token ht (fun n hn => ?_) h
  rw [hn] at hsymbol
  cases hsymbol

namespace Tree

/-- Each token is written in one of the ways there are. -/
def Writable (t : Tree) : Prop := ∀ token ∈ t.tokens, token.WrittenAs token.chars

theorem breaks_itemTokens (items : List Tree) (s : List Char) :
    Breaks ((itemTokens items).flatMap Token.chars ++ s) := by
  cases items <;> rintro _ ⟨⟩ <;> decide

theorem breaks_fieldTokens (fields : List (Quotation × Tree)) (s : List Char) :
    Breaks ((fieldTokens fields).flatMap Token.chars ++ s) := by
  cases fields <;> rintro _ ⟨⟩ <;> decide

mutual

theorem row_tokens (hrest : Row ts s) (hs : Breaks s) : (t : Tree) → t.Writable →
    Row (t.tokens ++ ts) (t.tokens.flatMap Token.chars ++ s)
  | .null, h | .bool _, h | .number _, h | .string _, h | .broken _, h => by
    simpa [tokens] using Row.token (h _ (by simp [tokens])) (fun _ _ => hs) hrest
  | .list [] _, h | .object [] _, h => by
    simp only [Writable, tokens, List.forall_mem_cons] at h
    obtain ⟨hbegin, hend, -⟩ := h
    simpa [tokens] using Row.symbol hbegin rfl (.symbol hend rfl hrest)
  | .list (t :: items) _, h => by
    simp only [Writable, tokens, List.forall_mem_cons, List.forall_mem_append] at h
    obtain ⟨hbegin, ht, hitems⟩ := h
    have hend := row_itemTokens hrest items hitems
    have hvalue := row_tokens hend (breaks_itemTokens items s) t ht
    simpa [tokens] using Row.symbol hbegin rfl hvalue
  | .object ((key, t) :: fields) _, h => by
    simp only [Writable, tokens, List.forall_mem_cons, List.forall_mem_append] at h
    obtain ⟨hbegin, hkey, hcolon, ht, hfields⟩ := h
    have hend := row_fieldTokens hrest fields hfields
    have hvalue := row_tokens hend (breaks_fieldTokens fields s) t ht
    simpa [tokens] using Row.symbol hbegin rfl (.symbol hkey rfl (.symbol hcolon rfl hvalue))

theorem row_itemTokens (hrest : Row ts s) : (items : List Tree) →
    (∀ token ∈ itemTokens items, token.WrittenAs token.chars) →
    Row (itemTokens items ++ ts) ((itemTokens items).flatMap Token.chars ++ s)
  | [], _ => by
    have hend : Token.endList.WrittenAs Token.endList.chars := .endList
    simpa [itemTokens] using Row.symbol hend rfl hrest
  | t :: items, h => by
    simp only [itemTokens, List.forall_mem_cons, List.forall_mem_append] at h
    obtain ⟨hcomma, ht, hitems⟩ := h
    have hend := row_itemTokens hrest items hitems
    have hvalue := row_tokens hend (breaks_itemTokens items s) t ht
    simpa [itemTokens] using Row.symbol hcomma rfl hvalue

theorem row_fieldTokens (hrest : Row ts s) : (fields : List (Quotation × Tree)) →
    (∀ token ∈ fieldTokens fields, token.WrittenAs token.chars) →
    Row (fieldTokens fields ++ ts) ((fieldTokens fields).flatMap Token.chars ++ s)
  | [], _ => by
    have hend : Token.endObject.WrittenAs Token.endObject.chars := .endObject
    simpa [fieldTokens] using Row.symbol hend rfl hrest
  | (key, t) :: fields, h => by
    simp only [fieldTokens, List.forall_mem_cons, List.forall_mem_append] at h
    obtain ⟨hcomma, hkey, hcolon, ht, hfields⟩ := h
    have hend := row_fieldTokens hrest fields hfields
    have hvalue := row_tokens hend (breaks_fieldTokens fields s) t ht
    simpa [fieldTokens] using
      Row.symbol hcomma rfl (.symbol hkey rfl (.symbol hcolon rfl hvalue))

end

variable {t : Tree} {items : List Tree} {fields : List (Quotation × Tree)}

theorem writtenAs_written (hsound : t.Sound) (h : t.Writable) : t.WrittenAs t.written := by
  have hbreaks : Breaks [] := by simp [Breaks]
  have hrow := row_tokens .nil hbreaks t h
  rw [List.append_nil, List.append_nil] at hrow
  exact ⟨hsound, by rwa [written, String.toList_ofList]⟩

theorem writable_ofText (s : String) : (ofText s).Writable := by
  simpa [Writable, ofText, tokens] using Quotation.writtenAs_ofText s

theorem says_ofText (s : String) : (ofText s).Says s := ⟨_, rfl, Quotation.says_ofText s⟩

theorem writable_itemTokens (h : ∀ item ∈ items, Writable item) :
    ∀ token ∈ itemTokens items, token.WrittenAs token.chars := by
  induction items with
  | nil => simpa [itemTokens, Token.chars] using Token.WrittenAs.endList
  | cons item items ih =>
    rw [List.forall_mem_cons] at h
    simp only [itemTokens, List.forall_mem_cons, List.forall_mem_append]
    exact ⟨.comma, h.1, ih h.2⟩

theorem writable_list (h : ∀ item ∈ items, Writable item) : (list items stop).Writable := by
  cases items with
  | nil =>
    simp only [Writable, tokens, List.forall_mem_cons]
    exact ⟨.beginList, .endList, List.forall_mem_nil _⟩
  | cons item items =>
    rw [List.forall_mem_cons] at h
    simp only [Writable, tokens, List.forall_mem_cons, List.forall_mem_append]
    exact ⟨.beginList, h.1, writable_itemTokens h.2⟩

def WritableField (field : Quotation × Tree) : Prop :=
  (Token.string field.1).WrittenAs (Token.string field.1).chars ∧ field.2.Writable

theorem writable_fieldTokens (h : ∀ field ∈ fields, WritableField field) :
    ∀ token ∈ fieldTokens fields, token.WrittenAs token.chars := by
  induction fields with
  | nil => simpa [fieldTokens, Token.chars] using Token.WrittenAs.endObject
  | cons field fields ih =>
    rw [List.forall_mem_cons] at h
    simp only [fieldTokens, List.forall_mem_cons, List.forall_mem_append]
    exact ⟨.comma, h.1.1, .colon, h.1.2, ih h.2⟩

theorem writable_object (h : ∀ field ∈ fields, WritableField field) :
    (object fields stop).Writable := by
  cases fields with
  | nil =>
    simp only [Writable, tokens, List.forall_mem_cons]
    exact ⟨.beginObject, .endObject, List.forall_mem_nil _⟩
  | cons field fields =>
    rw [List.forall_mem_cons] at h
    simp only [Writable, tokens, List.forall_mem_cons, List.forall_mem_append]
    exact ⟨.beginObject, h.1.1, .colon, h.1.2, writable_fieldTokens h.2⟩

end Tree

end Phrasebook.Json
