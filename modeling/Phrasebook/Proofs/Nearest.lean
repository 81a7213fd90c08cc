import Mathlib.Data.List.Sort
import Mathlib.Data.String.Basic
import Phrasebook.Proofs.Edits

/-!
# The nearest texts

What is suggested for a name are the first three in a ranking of the texts that are
within reach of it. The ranking is by the number of edits and then by position
(`Nearer`); it is given by its members and this order, without a word on how it is
made (`Ranks`), and there is just one (`Ranks.eq_ranking`).

How far the reach goes depends on the bytes of a name. All suggestions are a single
edit away if and only if the name has at most three of them; for an ASCII name these
are its characters (`suggestions_one_edit_iff`).
-/

namespace Phrasebook.Spelling

variable {name s : String} {available : List String} {a b : String × Nat} {n : Nat}

-- ---------------------------------------------------------------------------
-- Ranking
-- ---------------------------------------------------------------------------

def Away (name s : String) (n : Nat) : Prop := IsLeast {n | Edits n name.toList s.toList} n

def InReach (name s : String) : Prop :=
  ∃ n, Away name s n ∧ 1 ≤ n ∧ n ≤ if name.utf8ByteSize ≤ 3 then 1 else 2

/-- Of two texts with their positions, the first is fewer edits away, or it is as many edits away
and stands earlier. -/
def Nearer (name : String) (a b : String × Nat) : Prop :=
  ∃ m n, Away name a.1 m ∧ Away name b.1 n ∧ (m < n ∨ m = n ∧ a.2 < b.2)

/-- All texts within reach, with their positions, from the nearest on. -/
structure Ranks (name : String) (available : List String) (ranked : List (String × Nat)) :
    Prop where
  mem_iff : ∀ a, a ∈ ranked ↔ a ∈ available.zipIdx ∧ InReach name a.1
  nearer : ranked.Pairwise (Nearer name)

theorem away_iff : Away name s n ↔ distance name s = n :=
  ⟨fun h => (isLeast_distance name s).unique h, fun h => h ▸ isLeast_distance name s⟩

theorem inReach_iff : InReach name s ↔ 1 ≤ distance name s ∧ distance name s ≤ reach name := by
  simp [InReach, away_iff, reach]

theorem nearer_iff :
    Nearer name a b ↔ distance name a.1 < distance name b.1 ∨
      distance name a.1 = distance name b.1 ∧ a.2 < b.2 := by
  simp [Nearer, away_iff]

theorem distance_eq_zero_iff : distance name s = 0 ↔ s = name := by
  constructor
  · intro h
    have hedits := (away_iff.mpr h).1
    exact (String.toList_inj.mp (edits_zero_iff.mp hedits)).symm
  · rintro rfl
    exact distance_self s

theorem mem_candidatesAt :
    s ∈ candidatesAt name available n ↔ s ∈ available ∧ distance name s = n := by
  simp [candidatesAt]

theorem inReach_of_mem_suggestions (h : s ∈ suggestions name available) : InReach name s := by
  obtain ⟨n, hn, hs⟩ := List.mem_flatMap.mp (List.mem_of_mem_take h)
  obtain ⟨-, rfl⟩ := mem_candidatesAt.mp hs
  rw [inReach_iff]
  have hbounds := List.mem_range'_1.mp hn
  omega

def ranking (name : String) (available : List String) : List (String × Nat) :=
  (List.range' 1 (reach name)).flatMap fun n =>
    available.zipIdx.filter fun a => distance name a.1 == n

theorem map_fst_ranking (name : String) (available : List String) :
    (ranking name available).map Prod.fst =
      (List.range' 1 (reach name)).flatMap (candidatesAt name available) := by
  have hpart (n : Nat) : (available.zipIdx.filter fun a => distance name a.1 == n).map Prod.fst =
      candidatesAt name available n := by
    rw [candidatesAt]
    conv_rhs => rw [← List.zipIdx_map_fst 0 available, List.filter_map]
    rfl
  simp only [ranking, List.map_flatMap, hpart]

theorem suggestions_eq (name : String) (available : List String) :
    suggestions name available = ((ranking name available).take 3).map Prod.fst := by
  rw [suggestions, ← map_fst_ranking, List.map_take]

theorem mem_ranking : a ∈ ranking name available ↔ a ∈ available.zipIdx ∧ InReach name a.1 := by
  simp only [ranking, List.mem_flatMap, List.mem_range'_1, List.mem_filter, beq_iff_eq, inReach_iff]
  constructor
  · rintro ⟨n, hn, ha, rfl⟩
    exact ⟨ha, hn.1, by omega⟩
  · rintro ⟨ha, hpos, hle⟩
    exact ⟨_, ⟨hpos, by omega⟩, ha, rfl⟩

theorem pairwise_ranking (name : String) (available : List String) :
    (ranking name available).Pairwise (Nearer name) := by
  have hpositions : available.zipIdx.Pairwise fun a b => a.2 < b.2 := by
    rw [← List.pairwise_map, List.zipIdx_map_snd]
    exact List.pairwise_lt_range'
  refine List.pairwise_flatMap.mpr ⟨fun n _ => ?_, ?_⟩
  · refine List.Pairwise.imp_of_mem ?_ (hpositions.filter _)
    intro a b ha hb hlt
    simp only [List.mem_filter, beq_iff_eq] at ha hb
    exact nearer_iff.mpr (.inr ⟨ha.2.trans hb.2.symm, hlt⟩)
  · refine List.Pairwise.imp ?_ (List.pairwise_lt_range' 1)
    intro m n hlt a ha b hb
    simp only [List.mem_filter, beq_iff_eq] at ha hb
    rw [nearer_iff, ha.2, hb.2]
    exact .inl hlt

theorem ranks_ranking (name : String) (available : List String) :
    Ranks name available (ranking name available) :=
  ⟨fun _ => mem_ranking, pairwise_ranking name available⟩

theorem Ranks.eq_ranking (h : Ranks name available ranked) : ranked = ranking name available := by
  have hasymm : Std.Asymm (Nearer name) := by
    refine ⟨fun a b hab hba => ?_⟩
    rw [nearer_iff] at hab hba
    omega
  refine List.Pairwise.eq_of_mem_iff h.nearer (pairwise_ranking name available) fun a => ?_
  rw [h.mem_iff, mem_ranking]

theorem nearer_of_notMem_take {k : Nat} (ha : a ∈ (ranking name available).take k)
    (hb : b ∈ available.zipIdx) (hleft : b ∉ (ranking name available).take k)
    (hname : b.1 ≠ name) : Nearer name a b := by
  by_cases hreach : InReach name b.1
  · have hmem : b ∈ (ranking name available).take k ++ (ranking name available).drop k := by
      rw [List.take_append_drop]
      exact mem_ranking.mpr ⟨hb, hreach⟩
    have hordered := pairwise_ranking name available
    rw [← List.take_append_drop k (ranking name available), List.pairwise_append] at hordered
    exact hordered.2.2 a ha b ((List.mem_append.mp hmem).resolve_left hleft)
  · have hnear := inReach_iff.mp (mem_ranking.mp (List.mem_of_mem_take ha)).2
    have hpos : distance name b.1 ≠ 0 := fun h => hname (distance_eq_zero_iff.mp h)
    rw [inReach_iff] at hreach
    exact nearer_iff.mpr (.inl (by omega))

/-- The texts within reach have a ranking, and what is suggested are the first three of it. A text
that is left out is no nearer than one that is suggested, unless it is the name itself. -/
theorem suggestions_nearest (name : String) (available : List String) :
    (∃ ranked, Ranks name available ranked) ∧ name ∉ suggestions name available ∧
      ∀ ranked, Ranks name available ranked →
        suggestions name available = (ranked.take 3).map Prod.fst ∧
        ∀ a ∈ ranked.take 3, ∀ b ∈ available.zipIdx, b ∉ ranked.take 3 → b.1 ≠ name →
          Nearer name a b := by
  refine ⟨⟨_, ranks_ranking name available⟩, fun h => ne_of_mem_suggestions h rfl, ?_⟩
  intro ranked hranked
  obtain rfl := hranked.eq_ranking
  exact ⟨suggestions_eq name available, fun a ha b hb => nearer_of_notMem_take ha hb⟩

theorem suggestions_nearest_twice :
    let available := ["fr", "en-GB", "en-US", "en_US", "en-GB", "en-U"]
    let ranked := [("en_US", 3), ("en-U", 5), ("en-GB", 1), ("en-GB", 4)]
    Ranks "en-US" available ranked ∧
      suggestions "en-US" available = ["en_US", "en-U", "en-GB"] ∧
      Nearer "en-US" ("en-GB", 1) ("en-GB", 4) := by
  intro available ranked
  have heq : ranking "en-US" available = ranked := by decide +kernel
  have hranked : Ranks "en-US" available ranked := heq ▸ ranks_ranking "en-US" available
  obtain ⟨-, -, hnearest⟩ := suggestions_nearest "en-US" available
  obtain ⟨hsuggestions, hleft⟩ := hnearest ranked hranked
  refine ⟨hranked, hsuggestions, hleft _ ?_ _ ?_ ?_ ?_⟩ <;> simp [available, ranked]

-- ---------------------------------------------------------------------------
-- Names of a few characters
-- ---------------------------------------------------------------------------

def OneEdit (name : String) : Prop := ∀ available, ∀ s ∈ suggestions name available, Away name s 1

theorem suggestions_singleton (h : InReach name s) : suggestions name [s] = [s] := by
  have hranks : Ranks name [s] [(s, 0)] := by
    refine ⟨fun a => ?_, List.pairwise_singleton ..⟩
    constructor
    · intro ha
      obtain rfl := List.mem_singleton.mp ha
      exact ⟨by simp, h⟩
    · rintro ⟨ha, -⟩
      simpa using ha
  rw [suggestions_eq, ← hranks.eq_ranking]
  rfl

theorem away_append_two (name : String) : Away name (name ++ "xx") 2 := by
  refine ⟨?_, fun n h => ?_⟩
  · have hfirst := Edit.insert name.toList [] 'x'
    have hsecond := Edit.insert name.toList ['x'] 'x'
    simpa using Edits.cons hfirst (.cons hsecond .none)
  · have hlength := Edits.length_le h
    simp at hlength
    omega

theorem utf8ByteSize_of_ascii (h : ∀ c ∈ name.toList, c.val ≤ 127) :
    name.utf8ByteSize = name.length := by
  rw [← String.utf8Len_toList, ← String.length_toList]
  generalize name.toList = cs at h
  induction cs with
  | nil => rfl
  | cons c cs ih =>
    obtain ⟨hc, hcs⟩ := List.forall_mem_cons.mp h
    rw [String.utf8Len_cons, List.length_cons, ih hcs, Char.utf8Size_eq_one_iff.mpr hc]

theorem exists_away_two_iff :
    (∃ available, ∃ s ∈ suggestions name available, Away name s 2) ↔ 3 < name.utf8ByteSize := by
  constructor
  · rintro ⟨available, s, hs, htwo⟩
    obtain ⟨n, hn, -, hle⟩ := inReach_of_mem_suggestions hs
    cases hn.unique htwo
    split at hle <;> omega
  · intro hlong
    have htwo := away_append_two name
    have hreach : InReach name (name ++ "xx") := by
      refine ⟨2, htwo, by omega, ?_⟩
      rw [if_neg (Nat.not_le_of_lt hlong)]
    exact ⟨[name ++ "xx"], _, by simp [suggestions_singleton hreach], htwo⟩

theorem oneEdit_iff : OneEdit name ↔ name.utf8ByteSize ≤ 3 := by
  constructor
  · intro h
    by_contra hlong
    obtain ⟨available, s, hs, htwo⟩ := exists_away_two_iff.mpr (Nat.lt_of_not_le hlong)
    have hone := (h available s hs).unique htwo
    omega
  · intro hshort available s hs
    obtain ⟨n, hn, hpos, hle⟩ := inReach_of_mem_suggestions hs
    rw [if_pos hshort] at hle
    obtain rfl : n = 1 := by omega
    exact hn

/-- A name has suggestions that are two edits away, given texts that are, if and only if it has more
than three bytes. These are more than three characters if all of them are ASCII. -/
theorem suggestions_one_edit_iff (name : String) :
    (OneEdit name ↔ name.utf8ByteSize ≤ 3) ∧
      ((∃ available, ∃ s ∈ suggestions name available, Away name s 2) ↔ 3 < name.utf8ByteSize) ∧
      ((∀ c ∈ name.toList, c.val ≤ 127) → (OneEdit name ↔ name.length ≤ 3)) := by
  refine ⟨oneEdit_iff, exists_away_two_iff, fun hascii => ?_⟩
  rw [oneEdit_iff, utf8ByteSize_of_ascii hascii]

theorem suggestions_one_edit_iff_en :
    (∀ c ∈ "en".toList, c.val ≤ 127) ∧ "en".length ≤ 3 ∧
      ∀ available, ∀ s ∈ suggestions "en" available, Away "en" s 1 := by
  have hascii : ∀ c ∈ "en".toList, c.val ≤ 127 := by simp
  obtain ⟨-, -, hone⟩ := suggestions_one_edit_iff "en"
  exact ⟨hascii, by decide, (hone hascii).mpr (by decide)⟩

theorem two_edits_of_two_characters :
    "éé".length = 2 ∧ suggestions "éé" ["en"] = ["en"] ∧ Away "éé" "en" 2 ∧
      ¬ Away "éé" "en" 1 := by
  have htwo : Away "éé" "en" 2 := away_iff.mpr (by decide +kernel)
  refine ⟨by decide +kernel, by decide +kernel, htwo, fun hone => ?_⟩
  exact absurd (hone.unique htwo) (by decide)

end Phrasebook.Spelling
