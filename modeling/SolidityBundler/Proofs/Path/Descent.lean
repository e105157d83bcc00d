/-
Walking down a path.

A relative path is a walk: an ordinary segment goes down, `..` goes back up, an empty segment
and `.` stay, and going up from the root fails.  Normalising keeps a trail of such a walk, but
it never fails.  Where there is nothing to go back to it writes `..` down, and a `..` at the
bottom of the trail is never taken away again.  So the normal form of a path is the place that
the walk ends at, or it begins with `..` and the walk leaves the root.
-/
import SolidityBundler.Bundle.Resolution
import SolidityBundler.Proofs.Text.Lines

namespace SolidityBundler

/-! ### Pieces and what they are joined to -/

theorem Text.notMem_of_mem_split {sep : Char} {t piece : Text} (h : piece ∈ split sep t) :
    sep ∉ piece := by
  induction t generalizing piece with
  | nil =>
      rw [split, List.mem_singleton] at h
      simp [h]
  | cons c rest ih =>
      rw [split] at h
      by_cases hc : c = sep
      · rw [if_pos hc] at h
        rcases List.mem_cons.1 h with rfl | h
        · simp
        · exact ih h
      · rw [if_neg hc] at h
        cases hpieces : split sep rest with
        | nil => exact absurd hpieces (split_ne_nil sep rest)
        | cons first others =>
            rw [hpieces] at h ih
            rcases List.mem_cons.1 h with rfl | h
            · rw [List.mem_cons, not_or]
              exact ⟨Ne.symm hc, ih List.mem_cons_self⟩
            · exact ih (List.mem_cons_of_mem _ h)

theorem Text.split_join {sep : Char} {pieces : List Text} (hne : pieces ≠ [])
    (h : ∀ piece ∈ pieces, sep ∉ piece) : split sep (join [sep] pieces) = pieces := by
  induction pieces with
  | nil => exact absurd rfl hne
  | cons piece rest ih =>
      rw [List.forall_mem_cons] at h
      cases rest with
      | nil => exact split_of_notMem h.1
      | cons next rest =>
          rw [join, List.append_assoc, List.singleton_append, split_append_cons,
            split_of_notMem h.1, ih (List.cons_ne_nil _ _) h.2]
          · rfl
          · exact List.cons_ne_nil _ _

namespace SlashPath

theorem ofSegments_segments (path : Text) : ofSegments (segments path) = path :=
  Text.join_split '/' path

theorem ofSegments_singleton (segment : Text) : ofSegments [segment] = segment := rfl

theorem segments_ofSegments {segs : List Text} (hne : segs ≠ [])
    (h : ∀ segment ∈ segs, '/' ∉ segment) : segments (ofSegments segs) = segs :=
  Text.split_join hne h

theorem ofSegments_append {front back : List Text} (hfront : front ≠ []) (hback : back ≠ []) :
    ofSegments (front ++ back) = ofSegments front ++ '/' :: ofSegments back := by
  induction front with
  | nil => exact absurd rfl hfront
  | cons segment rest ih =>
      cases rest with
      | nil =>
          cases back with
          | nil => exact absurd rfl hback
          | cons next back => simp [ofSegments, Text.join]
      | cons next rest =>
          have hrest := ih (List.cons_ne_nil _ _)
          simp only [ofSegments, List.cons_append, Text.join] at hrest ⊢
          rw [hrest]
          simp

/-! ### The walk -/

/-- The place that a segment leads to from another place. -/
def enter? (place : List Text) (segment : Text) : Option (List Text) :=
  if segment = up then
    if place = [] then none else some place.dropLast
  else if isRelativeSegment segment then some place
  else some (place ++ [segment])

/-- The place that a row of segments leads to, if the walk never goes up from the root. -/
def descend? (place : List Text) (segs : List Text) : Option (List Text) :=
  segs.foldlM enter? place

/-- Every segment of the path names something. -/
def Plain (path : Text) : Prop := ∀ segment ∈ segments path, isRelativeSegment segment = false

theorem descend?_cons (place : List Text) (segment : Text) (segs : List Text) :
    descend? place (segment :: segs)
      = (enter? place segment).bind fun next => descend? next segs :=
  rfl

theorem descend?_append (place front back : List Text) :
    descend? place (front ++ back)
      = (descend? place front).bind fun next => descend? next back :=
  List.foldlM_append

private theorem descend?_of_named {place segs : List Text}
    (h : ∀ segment ∈ segs, isRelativeSegment segment = false) :
    descend? place segs = some (place ++ segs) := by
  induction segs generalizing place with
  | nil => simp [descend?]
  | cons segment segs ih =>
      rw [List.forall_mem_cons] at h
      have hup : segment ≠ up := by
        rintro rfl
        simp [isRelativeSegment] at h
      rw [descend?_cons, enter?, if_neg hup, if_neg (by simp [h.1]), Option.bind_some, ih h.2]
      simp

theorem visit_of_enter? {place next : List Text} {segment : Text} (hplace : up ∉ place)
    (h : enter? place segment = some next) :
    visit false place.reverse segment = next.reverse ∧ up ∉ next := by
  unfold enter? at h
  by_cases hup : segment = up
  · subst hup
    rcases List.eq_nil_or_concat place with rfl | ⟨above, last, rfl⟩
    · simp at h
    · simp only [List.concat_eq_append, List.mem_append, List.mem_singleton, not_or] at hplace h
      have hlast : last ≠ up := Ne.symm hplace.2
      simp only [if_pos, List.append_eq_nil_iff, List.cons_ne_nil, and_false, if_false,
        List.dropLast_concat, Option.some.injEq] at h
      rw [← h]
      refine ⟨?_, hplace.1⟩
      have hpop : visit false (last :: above.reverse) up
          = if last == up then up :: last :: above.reverse else above.reverse := rfl
      rw [List.concat_eq_append, List.reverse_concat, hpop, if_neg (by simpa using hlast), h]
  · rw [if_neg hup] at h
    by_cases hrelative : isRelativeSegment segment
    · rw [if_pos hrelative, Option.some.injEq] at h
      rw [← h]
      refine ⟨?_, hplace⟩
      have : (segment.isEmpty || segment == here) = true := by
        simpa [isRelativeSegment, hup, Bool.or_comm] using hrelative
      unfold visit
      rw [if_pos this]
    · rw [if_neg hrelative, Option.some.injEq] at h
      rw [← h]
      have hnamed : ¬ (segment.isEmpty || segment == here) = true := by
        simp only [isRelativeSegment, Bool.or_eq_true, not_or] at hrelative ⊢
        exact ⟨hrelative.2, hrelative.1.1⟩
      refine ⟨?_, ?_⟩
      · unfold visit
        rw [if_neg hnamed, if_neg (by simpa using hup), List.reverse_concat]
      · simp only [List.mem_append, List.mem_singleton, not_or]
        exact ⟨hplace, Ne.symm hup⟩

private theorem foldl_visit_of_descend? {place stop : List Text} {segs : List Text}
    (hplace : up ∉ place) (h : descend? place segs = some stop) :
    segs.foldl (visit false) place.reverse = stop.reverse ∧ up ∉ stop := by
  induction segs generalizing place with
  | nil =>
      rw [← Option.some.inj h]
      exact ⟨rfl, hplace⟩
  | cons segment segs ih =>
      rw [descend?_cons, Option.bind_eq_some_iff] at h
      obtain ⟨next, hnext, hrest⟩ := h
      obtain ⟨hvisit, hnext⟩ := visit_of_enter? hplace hnext
      rw [List.foldl_cons, hvisit]
      exact ih hnext hrest

private theorem getLast?_visit {trail : List Text} (h : trail.getLast? = some up) (segment : Text) :
    (visit false trail segment).getLast? = some up := by
  unfold visit
  by_cases hstay : (segment.isEmpty || segment == here) = true
  · rw [if_pos hstay]
    exact h
  · rw [if_neg hstay]
    by_cases hup : (segment == up) = true
    · rw [if_pos hup]
      cases trail with
      | nil => simp at h
      | cons last below =>
          by_cases hlast : (last == up) = true
          · simp only [hlast, if_true]
            rw [List.getLast?_cons_cons]
            exact h
          · simp only [hlast]
            cases below with
            | nil =>
                rw [List.getLast?_singleton, Option.some.injEq] at h
                simp [h] at hlast
            | cons next below => rwa [List.getLast?_cons_cons] at h
    · rw [if_neg hup]
      cases trail with
      | nil => simp at h
      | cons last below =>
          rw [List.getLast?_cons_cons]
          exact h

private theorem getLast?_foldl_visit {trail : List Text} (h : trail.getLast? = some up)
    (segs : List Text) : (segs.foldl (visit false) trail).getLast? = some up := by
  induction segs generalizing trail with
  | nil => exact h
  | cons segment segs ih => exact ih (getLast?_visit h segment)

/-- A walk that leaves the root leaves `..` at the bottom of the trail. -/
theorem getLast?_foldl_visit_of_descend? {place : List Text} {segs : List Text}
    (hplace : up ∉ place) (h : descend? place segs = none) :
    (segs.foldl (visit false) place.reverse).getLast? = some up := by
  induction segs generalizing place with
  | nil => simp [descend?] at h
  | cons segment segs ih =>
      rw [descend?_cons] at h
      cases hnext : enter? place segment with
      | some next =>
          rw [hnext, Option.bind_some] at h
          obtain ⟨hvisit, hnext⟩ := visit_of_enter? hplace hnext
          rw [List.foldl_cons, hvisit]
          exact ih hnext h
      | none =>
          have hroot : segment = up ∧ place = [] := by
            unfold enter? at hnext
            split at hnext
            · next hup =>
                split at hnext
                · next hnil => exact ⟨hup, hnil⟩
                · simp at hnext
            · split at hnext <;> simp at hnext
          obtain ⟨rfl, rfl⟩ := hroot
          exact getLast?_foldl_visit rfl segs

/-! ### Normal paths -/

theorem rootSlashes_le_two (path : Text) : rootSlashes path ≤ 2 := by
  unfold rootSlashes
  split <;> decide

/-- Up to two slashes in front of what begins with none are told as they are. -/
theorem rootSlashes_replicate_append {n : Nat} (hn : n ≤ 2) {path : Text}
    (h : path.head? ≠ some '/') : rootSlashes (List.replicate n '/' ++ path) = n := by
  have hnone : path.takeWhile (· == '/') = [] := by
    cases path with
    | nil => rfl
    | cons c rest => exact List.takeWhile_cons_of_neg (by simpa using h)
  have hall : ∀ c ∈ List.replicate n '/', (c == '/') = true :=
    fun c hc => beq_iff_eq.2 (List.eq_of_mem_replicate hc)
  rw [rootSlashes, List.takeWhile_append_of_pos hall, hnone, List.append_nil,
    List.length_replicate]
  obtain rfl | rfl | rfl : n = 0 ∨ n = 1 ∨ n = 2 := by omega
  · rfl
  · rfl
  · rfl

theorem rootSlashes_eq_zero {path : Text} (h : path.head? ≠ some '/') : rootSlashes path = 0 :=
  rootSlashes_replicate_append (Nat.zero_le 2) h

/-- **The normal form of a path is where the walk ends, or it begins with `..`.** -/
theorem normalize_eq {path : Text} (h : path.head? ≠ some '/') :
    (∀ stop, descend? [] (segments path) = some stop → up ∉ stop ∧
      normalize path = if ofSegments stop = [] then here else ofSegments stop) ∧
    (descend? [] (segments path) = none →
      ∃ rest, normalize path = ofSegments (up :: rest)) := by
  have hroot := rootSlashes_eq_zero h
  have hnormal : normalSegments path = ((segments path).foldl (visit false) []).reverse := by
    rw [normalSegments, hroot]
    rfl
  have hplace : up ∉ ([] : List Text) := List.not_mem_nil
  refine ⟨fun stop hstop => ?_, fun hnone => ?_⟩
  · obtain ⟨hfold, hup⟩ := foldl_visit_of_descend? hplace hstop
    rw [List.reverse_nil] at hfold
    refine ⟨hup, ?_⟩
    rw [normalize, hroot, hnormal, hfold, List.reverse_reverse]
    simp only [List.replicate_zero, List.nil_append, List.isEmpty_iff]
  · have hlast := getLast?_foldl_visit_of_descend? hplace hnone
    rw [List.reverse_nil, ← List.head?_reverse, ← hnormal] at hlast
    obtain ⟨rest, hrest⟩ := List.head?_eq_some_iff.1 hlast
    refine ⟨rest, ?_⟩
    rw [normalize, hroot, hrest, List.replicate_zero, List.nil_append, if_neg]
    cases rest <;> simp [ofSegments, Text.join, up]

/-! ### Taken from a directory -/

theorem getLast?_ofSegments {segs : List Text}
    (h : ∀ segment ∈ segs, segment ≠ [] ∧ '/' ∉ segment) (hne : segs ≠ []) :
    ∃ c, (ofSegments segs).getLast? = some c ∧ c ≠ '/' := by
  obtain ⟨above, last, rfl⟩ := (List.eq_nil_or_concat segs).resolve_left hne
  rw [List.concat_eq_append] at h ⊢
  obtain ⟨hlast, hslash⟩ := h last (by simp)
  refine ⟨last.getLast hlast, ?_, ?_⟩
  · have hend : (ofSegments [last]).getLast? = some (last.getLast hlast) :=
      List.getLast?_eq_some_getLast hlast
    rcases above with _ | ⟨first, above⟩
    · exact hend
    · rw [ofSegments_append (List.cons_ne_nil _ _) (List.cons_ne_nil _ _),
        List.getLast?_append, List.getLast?_cons, hend]
      rfl
  · exact fun hc => hslash (hc ▸ List.getLast_mem hlast)

theorem directory_eq {path : Text} (h : Plain path) :
    directory path = ofSegments (segments path).dropLast := by
  obtain ⟨above, last, hsegs⟩ :=
    (List.eq_nil_or_concat (segments path)).resolve_left (Text.split_ne_nil '/' path)
  rw [List.concat_eq_append] at hsegs
  have hproper : ∀ segment ∈ above ++ [last], segment ≠ [] ∧ '/' ∉ segment := by
    intro segment hsegment
    rw [← hsegs] at hsegment
    refine ⟨?_, Text.notMem_of_mem_split hsegment⟩
    rintro rfl
    simpa [isRelativeSegment] using h [] hsegment
  have hlast : ∀ c ∈ last.reverse, (c != '/') = true := by
    intro c hc
    rw [List.mem_reverse] at hc
    simp only [bne_iff_ne, ne_eq]
    exact fun heq => (hproper last (by simp)).2 (heq ▸ hc)
  rw [hsegs, List.dropLast_concat, directory, ← ofSegments_segments path, hsegs]
  rcases Decidable.em (above = []) with rfl | hne
  · have hhead : (ofSegments ([] ++ [last])).reverse.dropWhile (· != '/') = [] := by
      rw [List.nil_append, ofSegments_singleton, ← List.append_nil last.reverse,
        List.dropWhile_append_of_pos hlast]
      rfl
    rw [hhead]
    rfl
  · obtain ⟨c, hc, hslash⟩ := getLast?_ofSegments
      (fun segment hsegment => hproper segment (List.mem_append_left _ hsegment)) hne
    obtain ⟨front, hfront⟩ := List.getLast?_eq_some_iff.1 hc
    have hhead : (ofSegments (above ++ [last])).reverse.dropWhile (· != '/')
        = '/' :: (ofSegments above).reverse := by
      rw [ofSegments_append hne (List.cons_ne_nil _ _), ofSegments_singleton, List.reverse_append,
        List.reverse_cons, List.append_assoc, List.dropWhile_append_of_pos hlast]
      rfl
    simp only [hhead, hfront, List.reverse_cons, List.reverse_append]
    simp [isAllSlashes, Text.trimEnd, hslash]

/-- A relative specifier behind a directory: the segments of both in a row. -/
theorem segments_join_directory {importer specifier : Text} (h : Plain importer)
    (hrelative : isRelative specifier = true) :
    segments (join (directory importer) specifier)
        = (segments importer).dropLast ++ segments specifier ∧
      (join (directory importer) specifier).head? ≠ some '/' := by
  have hdot : specifier.head? = some '.' := by
    rcases specifier with _ | ⟨c, rest⟩
    · simp [isRelative] at hrelative
    · simp only [isRelative, List.isPrefixOf, Bool.or_eq_true, Bool.and_eq_true, beq_iff_eq]
        at hrelative
      rcases hrelative with ⟨rfl, -⟩ | ⟨rfl, -⟩ <;> rfl
  have hspecifier : ¬ (specifier.head? == some '/') = true := by simp [hdot]
  rw [directory_eq h, join, if_neg hspecifier]
  have hproper : ∀ segment ∈ (segments importer).dropLast, segment ≠ [] ∧ '/' ∉ segment := by
    intro segment hsegment
    have hmem := (List.dropLast_sublist _).subset hsegment
    refine ⟨?_, Text.notMem_of_mem_split hmem⟩
    rintro rfl
    simpa [isRelativeSegment] using h [] hmem
  rcases Decidable.em ((segments importer).dropLast = []) with hnil | hne
  · rw [hnil]
    simp [ofSegments, Text.join, hdot]
  · obtain ⟨c, hc, hslash⟩ := getLast?_ofSegments hproper hne
    have hopen : ¬ ((ofSegments (segments importer).dropLast).isEmpty ||
        (ofSegments (segments importer).dropLast).getLast? == some '/') = true := by
      rw [hc, List.isEmpty_eq_false_iff.2 (by rintro hnil; simp [hnil] at hc)]
      simpa using hslash
    rw [if_neg hopen]
    refine ⟨?_, ?_⟩
    · rw [segments, Text.split_append_cons]
      exact congrArg (· ++ segments specifier)
        (segments_ofSegments hne fun segment hsegment => (hproper segment hsegment).2)
    · cases hfirst : (segments importer).dropLast with
      | nil => exact absurd hfirst hne
      | cons first others =>
          obtain ⟨hfirstNe, hfirstSlash⟩ := hproper first (by simp [hfirst])
          obtain ⟨c, rest, rfl⟩ := List.exists_cons_of_ne_nil hfirstNe
          have hc : c ≠ '/' := fun heq => hfirstSlash (by simp [heq])
          cases others <;> simpa [ofSegments, Text.join] using hc

/-- The walk of a specifier from the directory of the importer. -/
def walkFrom? (importer specifier : Text) : Option (List Text) :=
  descend? (segments importer).dropLast (segments specifier)

/-- A walk along the directory of a plain path ends in that directory. -/
theorem walkFrom?_eq {importer specifier : Text} (himporter : Plain importer) :
    walkFrom? importer specifier = descend? []
      ((segments importer).dropLast ++ segments specifier) := by
  have hdirectory : descend? [] (segments importer).dropLast = some (segments importer).dropLast :=
    descend?_of_named fun segment hsegment =>
      himporter segment ((List.dropLast_sublist _).subset hsegment)
  rw [descend?_append, hdirectory]
  rfl

end SlashPath

end SolidityBundler
