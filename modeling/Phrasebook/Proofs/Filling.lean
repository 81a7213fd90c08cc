import Phrasebook.Proofs.Scanning

/-!
# Filling

Writing over the first occurrence of a token is writing over the first
placeholder of that name (`replaceFirst_scan`). On clean segments, with texts
that are plain, the result is clean again, so the arguments can be followed one
by one on the segments (`foldl_fillOne`). What they come to together is one pass
from left to right (`foldl_fillOne_eq_pass`), in which their order does not
matter (`pass_congr`).
-/

namespace Phrasebook

-- ---------------------------------------------------------------------------
-- The first occurrence of a token
-- ---------------------------------------------------------------------------

theorem replaceFirst_append (h : old ≠ []) :
    replaceFirst old new (old ++ rest) = new ++ rest := by
  cases old with
  | nil => exact absurd rfl h
  | cons c old => simp [replaceFirst]

theorem replaceFirst_cons (h : ¬ old <+: c :: rest) :
    replaceFirst old new (c :: rest) = c :: replaceFirst old new rest := by
  rw [replaceFirst, if_neg (by simpa using h)]

theorem not_begins_token (h : c ≠ '{') : ¬ token name <+: c :: rest := by
  rintro ⟨t, ht⟩
  exact h (List.cons.inj ht).1.symm

/-- A token begins with its opening brace, so no occurrence begins in a text without one. -/
theorem replaceFirst_token_skip (h : '{' ∉ s) :
    replaceFirst (token name) new (s ++ rest) = s ++ replaceFirst (token name) new rest := by
  induction s with
  | nil => rfl
  | cons c s ih =>
    rw [List.mem_cons, not_or] at h
    rw [List.cons_append, replaceFirst_cons (not_begins_token (Ne.symm h.1)), ih h.2]
    rfl

theorem append_close_inj (ha : Plain a) (hb : Plain b) (h : a ++ '}' :: s = b ++ '}' :: t) :
    a = b := by
  have htake := congrArg (List.takeWhile isNameChar) h
  rwa [ha.takeWhile_close, hb.takeWhile_close] at htake

theorem prefix_token_append_iff (hname : Plain name) (hother : Plain other) :
    token name <+: token other ++ rest ↔ other = name := by
  constructor
  · rintro ⟨t, ht⟩
    refine append_close_inj (s := rest) (t := t) hother hname ?_
    simpa [token] using ht.symm
  · rintro rfl
    exact List.prefix_append ..

theorem replaceFirst_token_append (hname : Plain name) (hother : Plain other)
    (h : other ≠ name) :
    replaceFirst (token name) new (token other ++ rest) =
      token other ++ replaceFirst (token name) new rest := by
  have hstart : ¬ token name <+: '{' :: (other ++ ['}'] ++ rest) :=
    mt (prefix_token_append_iff hname hother).mp h
  have hopen : '{' ∉ other ++ ['}'] := by simpa using hother.open_notMem
  change replaceFirst (token name) new ('{' :: (other ++ ['}'] ++ rest)) = _
  rw [replaceFirst_cons hstart, replaceFirst_token_skip hopen]
  rfl

namespace Segment

variable {segment : Segment} {segments : List Segment}

/-- Puts characters in the place of the first placeholder of a name. -/
def overwrite (name new : List Char) : List Segment → List Segment
  | [] => []
  | .literal c :: rest => .literal c :: overwrite name new rest
  | .placeholder other :: rest =>
    if other = name then new.map .literal ++ rest
    else .placeholder other :: overwrite name new rest

theorem flatMap_text_literals (s : List Char) : (s.map literal).flatMap text = s := by
  induction s with
  | nil => rfl
  | cons c s ih => rw [List.map_cons, List.flatMap_cons, ih]; rfl

theorem flatMap_text_overwrite_cons (h : other ≠ name) :
    (overwrite name new (.placeholder other :: rest)).flatMap text =
      token other ++ (overwrite name new rest).flatMap text := by
  rw [overwrite, if_neg h, List.flatMap_cons, text]

theorem replaceFirst_scan (h : IsName name) (s : List Char) :
    replaceFirst (token name) new s = (overwrite name new (scan s)).flatMap text := by
  induction s using scan_induction with
  | nil => simp [scan, overwrite, replaceFirst]
  | token other rest hother ih =>
    rw [scan_token_append hother]
    by_cases heq : other = name
    · rw [heq, replaceFirst_append (by simp [Phrasebook.token]), overwrite, if_pos rfl,
        List.flatMap_append, flatMap_text_literals, text_scan]
    · rw [replaceFirst_token_append h.2 hother.2 heq, ih, flatMap_text_overwrite_cons heq]
  | literal c rest hc ih =>
    rw [replaceFirst_cons (not_begins_of_opening? h hc), ih, scan_cons hc, overwrite,
      List.flatMap_cons]
    rfl

-- ---------------------------------------------------------------------------
-- Clean segments
-- ---------------------------------------------------------------------------

/-- The token of the empty name is no placeholder. In the text of clean segments its two
braces never meet. -/
theorem Clean.replaceFirst_empty (h : Clean segments) :
    replaceFirst (token []) new (segments.flatMap text) = segments.flatMap text := by
  induction segments with
  | nil => rfl
  | cons segment segments ih =>
    cases segment with
    | literal c =>
      rw [List.flatMap_cons, text, List.singleton_append,
        replaceFirst_cons (h.not_begins plain_nil), ih h.tail]
    | placeholder other =>
      have hother := h.names other List.mem_cons_self
      rw [List.flatMap_cons, text, replaceFirst_token_append plain_nil hother.2 hother.1,
        ih h.tail]

theorem overwrite_append (h : placeholder name ∉ segments) (rest : List Segment) :
    overwrite name new (segments ++ rest) = segments ++ overwrite name new rest := by
  induction segments with
  | nil => rfl
  | cons segment segments ih =>
    rw [List.mem_cons, not_or] at h
    cases segment with
    | literal c => simp [overwrite, ih h.2]
    | placeholder other =>
      have hother : other ≠ name := by rintro rfl; exact h.1 rfl
      simp [overwrite, hother, ih h.2]

theorem overwrite_of_notMem (h : placeholder name ∉ segments) :
    overwrite name new segments = segments := by
  simpa [overwrite] using overwrite_append h []

theorem Clean.replaceFirst_text (h : Clean segments) (hname : Plain name) :
    replaceFirst (token name) new (segments.flatMap text) =
      (overwrite name new segments).flatMap text := by
  by_cases hempty : name = []
  · subst hempty
    have habsent : placeholder [] ∉ segments := fun hmem => (h.names [] hmem).1 rfl
    rw [h.replaceFirst_empty, overwrite_of_notMem habsent]
  · rw [replaceFirst_scan ⟨hempty, hname⟩, scan_flatMap_text h]

theorem mem_overwrite (h : segment ∈ overwrite name new segments) :
    segment ∈ segments ∨ ∃ c ∈ new, segment = .literal c := by
  induction segments with
  | nil => exact .inl h
  | cons first segments ih =>
    cases first with
    | literal c =>
      rcases List.mem_cons.mp h with rfl | h
      · exact .inl List.mem_cons_self
      · exact (ih h).imp_left (List.mem_cons_of_mem _)
    | placeholder other =>
      rw [overwrite] at h
      split at h
      · rcases List.mem_append.mp h with h | h
        · obtain ⟨c, hc, rfl⟩ := List.mem_map.mp h
          exact .inr ⟨c, hc, rfl⟩
        · exact .inl (List.mem_cons_of_mem _ h)
      · rcases List.mem_cons.mp h with rfl | h
        · exact .inl List.mem_cons_self
        · exact (ih h).imp_left (List.mem_cons_of_mem _)

theorem Clean.overwrite (h : Clean segments) (hnew : Plain new) :
    Clean (overwrite name new segments) where
  names other hmem := by
    rcases mem_overwrite hmem with hmem | ⟨c, -, hc⟩
    · exact h.names other hmem
    · cases hc
  braces := by
    refine h.braces.imp (fun hopen hmem => ?_) (fun hclose hmem => ?_)
    · rcases mem_overwrite hmem with hmem | ⟨c, hc, heq⟩
      · exact hopen hmem
      · cases heq; exact hnew.open_notMem hc
    · rcases mem_overwrite hmem with hmem | ⟨c, hc, heq⟩
      · exact hclose hmem
      · cases heq; exact hnew.close_notMem hc

theorem mem_names : name ∈ segments.filterMap name? ↔ .placeholder name ∈ segments := by
  constructor
  · intro h
    obtain ⟨segment, hmem, hname⟩ := List.mem_filterMap.mp h
    cases segment with
    | literal c => cases hname
    | placeholder other => cases hname; exact hmem
  · intro h
    exact List.mem_filterMap.mpr ⟨_, h, rfl⟩

def fillOne (segments : List Segment) (argument : String × Value) : List Segment :=
  overwrite argument.1.toList argument.2.text.toList segments

theorem Clean.foldl_fillOne {entries : List (String × Value)} (h : Clean segments)
    (hp : ∀ entry ∈ entries, Plain entry.1.toList ∧ entry.2.Plain) :
    Clean (entries.foldl fillOne segments) ∧
      entries.foldl Template.fillOne (segments.flatMap text) =
        (entries.foldl fillOne segments).flatMap text := by
  induction entries generalizing segments with
  | nil => exact ⟨h, rfl⟩
  | cons entry entries ih =>
    obtain ⟨⟨hname, hvalue⟩, hp⟩ := List.forall_mem_cons.mp hp
    rw [List.foldl_cons, List.foldl_cons, Template.fillOne, h.replaceFirst_text hname]
    exact ih (h.overwrite (Value.plain_text hvalue)) hp

-- ---------------------------------------------------------------------------
-- One pass
-- ---------------------------------------------------------------------------

/-- Goes through segments from left to right, with the names that have come up before. A
placeholder gives way to the value of its name, if there is one and the name is new. -/
def pass (value? : List Char → Option Value) : (seen : List (List Char)) → List Segment →
    List Segment
  | _, [] => []
  | seen, .literal c :: rest => .literal c :: pass value? seen rest
  | seen, .placeholder name :: rest =>
    match if name ∈ seen then none else value? name with
    | some value => value.text.toList.map .literal ++ pass value? (name :: seen) rest
    | none => .placeholder name :: pass value? (name :: seen) rest

variable {f g : List Char → Option Value} {seen seen' : List (List Char)}

theorem pass_congr
    (h : ∀ name, (if name ∈ seen then none else f name) = if name ∈ seen' then none else g name) :
    pass f seen segments = pass g seen' segments := by
  induction segments generalizing seen seen' with
  | nil => rfl
  | cons segment segments ih =>
    cases segment with
    | literal c => rw [pass, pass, ih h]
    | placeholder name =>
      have hrest : pass f (name :: seen) segments = pass g (name :: seen') segments := by
        refine ih fun other => ?_
        by_cases hother : other = name
        · simp [hother]
        · simpa [hother] using h other
      rw [pass, pass, h name, hrest]

theorem pass_none : pass (fun _ => none) seen segments = segments := by
  induction segments generalizing seen with
  | nil => rfl
  | cons segment segments ih =>
    cases segment with
    | literal c => rw [pass, ih]
    | placeholder name => simp [pass, ih]

theorem pass_literals (s : List Char) :
    pass f seen (s.map .literal ++ segments) = s.map .literal ++ pass f seen segments := by
  induction s with
  | nil => rfl
  | cons c s ih => simp [pass, ih]

theorem pass_overwrite (hf : f name = none) (hseen : name ∉ seen) :
    pass (fun other => if other = name then some value else f other) seen segments =
      pass f seen (overwrite name value.text.toList segments) := by
  induction segments generalizing seen with
  | nil => rfl
  | cons segment segments ih =>
    cases segment with
    | literal c => rw [pass, overwrite, pass, ih hseen]
    | placeholder other =>
      by_cases heq : other = name
      · subst heq
        have hrest :
            pass (fun n => if n = other then some value else f n) (other :: seen) segments =
              pass f seen segments := by
          refine pass_congr fun n => ?_
          by_cases hn : n = other
          · simp [hn, hseen, hf]
          · simp [hn]
        simp only [pass, overwrite, if_neg hseen, if_true, pass_literals, hrest]
      · have hother : name ∉ other :: seen := by simp [hseen, Ne.symm heq]
        rw [overwrite, if_neg heq, pass, pass, if_neg heq, ih hother]

def given (value? : List Char → Option Value) : Segment → List Segment
  | .literal c => [.literal c]
  | .placeholder name =>
    match value? name with
    | some value => value.text.toList.map .literal
    | none => [.placeholder name]

theorem pass_eq_flatMap (h : (segments.filterMap name?).Nodup)
    (hseen : ∀ name ∈ seen, name ∉ segments.filterMap name?) :
    pass f seen segments = segments.flatMap (given f) := by
  induction segments generalizing seen with
  | nil => rfl
  | cons segment segments ih =>
    cases segment with
    | literal c => rw [pass, ih h hseen, List.flatMap_cons, given, List.singleton_append]
    | placeholder name =>
      rw [List.filterMap_cons_some (f := name?) rfl] at h hseen
      obtain ⟨hfresh, hdistinct⟩ := List.nodup_cons.mp h
      have hnew : name ∉ seen := fun hmem => hseen name hmem List.mem_cons_self
      have hrest : pass f (name :: seen) segments = segments.flatMap (given f) := by
        refine ih hdistinct (List.forall_mem_cons.mpr ⟨hfresh, fun other hother hmem => ?_⟩)
        exact hseen other hother (List.mem_cons_of_mem _ hmem)
      rw [pass, if_neg hnew, hrest, List.flatMap_cons, given]
      cases f name <;> rfl

theorem placeholder_notMem_given (h : ∀ other, segment = .placeholder other → (f other).isSome) :
    placeholder name ∉ given f segment := by
  cases segment with
  | literal c => simp [given]
  | placeholder other =>
    obtain ⟨value, hvalue⟩ := Option.isSome_iff_exists.mp (h other rfl)
    simp [given, hvalue]

theorem foldl_fillOne_eq_pass {entries : List (String × Value)}
    (h : (entries.map Prod.fst).Nodup) :
    entries.foldl fillOne segments =
      pass (fun name => entries.lookup (String.ofList name)) [] segments := by
  induction entries generalizing segments with
  | nil => exact pass_none.symm
  | cons entry entries ih =>
    obtain ⟨hfresh, hdistinct⟩ := List.nodup_cons.mp h
    have hlookup : (fun name => (entry :: entries).lookup (String.ofList name)) = fun name =>
        if name = entry.1.toList then some entry.2
        else entries.lookup (String.ofList name) := by
      funext name
      simp only [lookup_cons_eq_ite, ← String.toList_inj, String.toList_ofList, eq_comm]
    have habsent : entries.lookup (String.ofList entry.1.toList) = none := by
      refine Option.eq_none_iff_forall_ne_some.mpr fun value hvalue => hfresh ?_
      rw [String.ofList_toList, lookup_eq_some_iff_mem hdistinct] at hvalue
      exact List.mem_map.mpr ⟨_, hvalue, rfl⟩
    rw [List.foldl_cons, ih hdistinct, hlookup, pass_overwrite habsent List.not_mem_nil, fillOne]

end Segment

-- ---------------------------------------------------------------------------
-- Templates
-- ---------------------------------------------------------------------------

namespace Arguments

def named (arguments : Arguments) (name : List Char) : Option Value :=
  arguments.get? (String.ofList name)

theorem count_names {arguments : Arguments} {name : String} :
    arguments.names.count name = if name ∈ arguments.names then 1 else 0 :=
  arguments.distinct.count

theorem named_perm {arguments other : Arguments} (h : other.entries.Perm arguments.entries) :
    other.named = arguments.named := by
  funext name
  refine Option.ext fun value => ?_
  rw [named, named, get?, get?, lookup_eq_some_iff_mem other.distinct,
    lookup_eq_some_iff_mem arguments.distinct]
  exact h.mem_iff

end Arguments

namespace Template

/-- The text that one pass from left to right makes of a template: the first placeholder of
each name that is among the arguments gives way to the text of its value, all else stays. -/
def fillAtOnce (t : Template) (arguments : Arguments) : String :=
  String.ofList ((Segment.pass arguments.named [] t.segments).flatMap Segment.text)

variable {t : Template} {arguments : Arguments}

theorem segments_fill (h : Segment.Clean t.segments) (hp : arguments.Plain) :
    (Template.mk (t.fill arguments)).segments =
      arguments.entries.foldl Segment.fillOne t.segments := by
  obtain ⟨hclean, hfill⟩ := h.foldl_fillOne hp
  rw [segments, Segment.text_scan] at hfill
  rw [segments, fill, String.toList_ofList, hfill]
  exact Segment.scan_flatMap_text hclean

theorem fill_eq (ht : t.Opened ∨ t.Closed) (hp : arguments.Plain) :
    t.fill arguments = t.fillAtOnce arguments ∧
      Segment.scan (t.fillAtOnce arguments).toList =
        Segment.pass arguments.named [] t.segments := by
  have hscan := segments_fill (Segment.clean_scan ht) hp
  rw [Segment.foldl_fillOne_eq_pass arguments.distinct] at hscan
  have htext := congrArg (List.flatMap Segment.text) hscan
  rw [segments, Segment.text_scan] at htext
  have hfill : t.fill arguments = t.fillAtOnce arguments := by
    rw [fillAtOnce, ← String.toList_inj, String.toList_ofList]
    exact htext
  rw [← hfill]
  exact ⟨rfl, hscan⟩

theorem placeholders_eq_map (t : Template) :
    t.placeholders = (t.segments.filterMap Segment.name?).map String.ofList :=
  List.map_filterMap.symm

theorem mem_placeholders {name : String} :
    name ∈ t.placeholders ↔ .placeholder name.toList ∈ t.segments := by
  rw [placeholders_eq_map, List.mem_map, ← Segment.mem_names]
  constructor
  · rintro ⟨chars, hmem, rfl⟩
    rwa [String.toList_ofList]
  · intro hmem
    exact ⟨_, hmem, String.ofList_toList⟩

theorem nodup_names (h : t.placeholders.Nodup) : (t.segments.filterMap Segment.name?).Nodup := by
  rw [placeholders_eq_map] at h
  exact List.Pairwise.of_map String.ofList (fun _ _ => mt (congrArg _)) h

def fillEvery (t : Template) (arguments : Arguments) : String :=
  String.ofList ((t.segments.flatMap (Segment.given arguments.named)).flatMap Segment.text)

theorem pass_segments (h : t.placeholders.Nodup) :
    Segment.pass arguments.named [] t.segments =
      t.segments.flatMap (Segment.given arguments.named) :=
  Segment.pass_eq_flatMap (nodup_names h) nofun

theorem fill_eq_fillEvery (ht : t.Opened ∨ t.Closed) (hp : arguments.Plain)
    (hd : t.placeholders.Nodup) (hnamed : ∀ name ∈ t.placeholders, arguments.contains name) :
    t.fill arguments = t.fillEvery arguments ∧
      (Template.mk (t.fillEvery arguments)).placeholders = [] := by
  obtain ⟨hfill, hscan⟩ := fill_eq ht hp
  have hevery : t.fillAtOnce arguments = t.fillEvery arguments := by
    rw [fillAtOnce, pass_segments hd, fillEvery]
  rw [hevery, pass_segments hd] at hscan
  refine ⟨hfill.trans hevery, List.eq_nil_iff_forall_not_mem.mpr fun name hmem => ?_⟩
  rw [mem_placeholders, segments, hscan] at hmem
  obtain ⟨segment, hsegment, hmem⟩ := List.mem_flatMap.mp hmem
  refine Segment.placeholder_notMem_given (fun other hother => ?_) hmem
  refine hnamed (String.ofList other) (mem_placeholders.mpr ?_)
  rwa [String.toList_ofList, ← hother]

/-- Filling step by step is filling in one pass, and the order of the arguments has no part
in it. -/
theorem fill_eq_fillAtOnce (ht : t.Opened ∨ t.Closed) (hp : arguments.Plain) :
    t.fill arguments = t.fillAtOnce arguments ∧
      ∀ other : Arguments, other.entries.Perm arguments.entries →
        t.fill other = t.fill arguments := by
  refine ⟨(fill_eq ht hp).1, fun other hperm => ?_⟩
  have hother : other.Plain := fun entry hentry => hp entry (hperm.mem_iff.mp hentry)
  rw [(fill_eq ht hother).1, (fill_eq ht hp).1, fillAtOnce, fillAtOnce,
    Arguments.named_perm hperm]

theorem fill_stray :
    let t : Template := ⟨"\x7ba\x7d\x7d \x7bb\x7d \x7ba\x7d \x7bc\x7d"⟩
    let arguments : Arguments :=
      ⟨[("", .bool true), ("b", .number (-5)), ("a", .float 0.5)], by decide⟩
    let other : Arguments :=
      ⟨[("a", .float 0.5), ("b", .number (-5)), ("", .bool true)], by decide⟩
    (t.Opened ∨ t.Closed) ∧ arguments.Plain ∧ other.entries.Perm arguments.entries ∧
      t.fill arguments = "0.5\x7d -5 \x7ba\x7d \x7bc\x7d" ∧
      t.fill other = "0.5\x7d -5 \x7ba\x7d \x7bc\x7d" := by
  intro t arguments other
  have ht : t.Opened := by decide +kernel
  have hp : arguments.Plain := by decide
  have hperm : other.entries.Perm arguments.entries := (List.reverse_perm arguments.entries)
  obtain ⟨hfill, hother⟩ := fill_eq_fillAtOnce (.inl ht) hp
  have honce : t.fillAtOnce arguments = "0.5\x7d -5 \x7ba\x7d \x7bc\x7d" := by decide +kernel
  exact ⟨.inl ht, hp, hperm, hfill.trans honce, (hother other hperm).trans (hfill.trans honce)⟩

end Template

end Phrasebook
