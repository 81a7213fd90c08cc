import Phrasebook.Json.Reader
import Phrasebook.Json.Writer

/-!
# Reading what was written

A sound tree is read back from its tokens, inside any open frames and before any
further tokens (`readValue_tokens`). The statement speaks of the frames and of
the rest because a value inside a list or object is read there.
-/

namespace Phrasebook.Json

namespace Tree

mutual

def Sound : Tree → Prop
  | .null => True
  | .bool _ => True
  | .number n => ∃ m, n = .ok m
  | .string q => q.defect = none
  | .list items stop => SoundItems items ∧ stop = none
  | .object fields stop => SoundFields fields ∧ stop = none
  | .broken _ => False

def SoundItems : List Tree → Prop
  | [] => True
  | t :: ts => Sound t ∧ SoundItems ts

def SoundFields : List (Quotation × Tree) → Prop
  | [] => True
  | (key, t) :: fields => key.defect = none ∧ Sound t ∧ SoundFields fields

end

theorem soundItems_iff {items : List Tree} : SoundItems items ↔ ∀ item ∈ items, Sound item := by
  induction items with
  | nil => simp [SoundItems]
  | cons item items ih => simp [SoundItems, ih]

theorem soundFields_iff {fields : List (Quotation × Tree)} :
    SoundFields fields ↔ ∀ field ∈ fields, field.1.defect = none ∧ Sound field.2 := by
  induction fields with
  | nil => simp [SoundFields]
  | cons field fields ih => simp only [SoundFields, ih, List.forall_mem_cons, and_assoc]

/-- No list or object ends where a value begins. -/
theorem tokens_head {t : Tree} (h : t.Sound) :
    ∃ first rest, t.tokens = first :: rest ∧ first ≠ .endList ∧ first ≠ .endObject := by
  cases t with
  | list items => cases items <;> exact ⟨_, _, by rw [tokens], by simp, by simp⟩
  | object fields => cases fields <;> exact ⟨_, _, by rw [tokens], by simp, by simp⟩
  | broken => exact (h : False).elim
  | _ => exact ⟨_, _, by rw [tokens], by simp, by simp⟩

end Tree

open Phrasebook.Json.Tree

mutual

theorem readValue_tokens (up : List Frame) (rest : List Token) :
    (t : Tree) → t.Sound → readValue up (t.tokens ++ rest) = readMore up t rest
  | .null, _ => by simp [tokens, readValue]
  | .bool _, _ => by simp [tokens, readValue]
  | .number _, _ => by simp [tokens, readValue]
  | .string _, _ => by simp [tokens, readValue]
  | .list [] _, h => by
    obtain ⟨_, rfl⟩ := h
    simp [tokens, readValue]
  | .list (t :: ts) _, h => by
    obtain ⟨⟨first_sound, rest_sound⟩, rfl⟩ := h
    obtain ⟨first, more, split, not_end, _⟩ := tokens_head first_sound
    have inner := readValue_tokens (.list [] :: up) (itemTokens ts ++ rest) t first_sound
    have items := readMore_itemTokens up rest [] t ts rest_sound
    rw [split] at inner
    simp only [tokens, List.cons_append, List.append_assoc, split] at inner ⊢
    rw [readValue, inner]
    · simpa using items
    · intro other h
      simp_all
  | .object [] _, h => by
    obtain ⟨_, rfl⟩ := h
    simp [tokens, readValue]
  | .object ((key, t) :: fields) _, h => by
    obtain ⟨⟨_, first_sound, rest_sound⟩, rfl⟩ := h
    have fields := readMore_fieldTokens up rest [] key t fields rest_sound
    simp only [tokens, List.cons_append, List.append_assoc]
    rw [readValue, readField, readValue_tokens _ _ t first_sound]
    · simpa using fields
    · simp
  | .broken _, h => (h : False).elim

theorem readMore_itemTokens (up : List Frame) (rest : List Token) (before : List Tree)
    (t : Tree) : (ts : List Tree) → SoundItems ts →
    readMore (.list before :: up) t (itemTokens ts ++ rest) =
      readMore up (.list (before ++ t :: ts) none) rest
  | [], _ => by simp [itemTokens, readMore]
  | next :: ts, h => by
    obtain ⟨first_sound, rest_sound⟩ := h
    simp only [itemTokens, List.cons_append, List.append_assoc]
    rw [readMore, readValue_tokens _ _ next first_sound,
      readMore_itemTokens up rest (before ++ [t]) next ts rest_sound]
    simp

theorem readMore_fieldTokens (up : List Frame) (rest : List Token)
    (before : List (Quotation × Tree)) (key : Quotation) (t : Tree) :
    (fields : List (Quotation × Tree)) → SoundFields fields →
    readMore (.object before key :: up) t (fieldTokens fields ++ rest) =
      readMore up (.object (before ++ (key, t) :: fields) none) rest
  | [], _ => by simp [fieldTokens, readMore]
  | (nextKey, next) :: fields, h => by
    obtain ⟨_, first_sound, rest_sound⟩ := h
    simp only [fieldTokens, List.cons_append, List.append_assoc]
    rw [readMore, readField, readValue_tokens _ _ next first_sound,
      readMore_fieldTokens up rest (before ++ [(key, t)]) nextKey next fields rest_sound]
    simp

end

end Phrasebook.Json
