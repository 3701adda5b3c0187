import Mathlib.Data.List.TakeWhile
import NodeStore.FileTree

/-!
Following paths. A path leads to the same place in all trees in which it can be
followed, and a path of plain names can be followed as far down as its directories are
there. Main statement: making the directories of such a path makes those that are
missing.
-/

namespace NodeStore

variable {here : Place} {α : Type}

/-- The place that a part of a path leads to. -/
def Place.follow (place : Place) (part : String) : Place :=
  if Path.isBlank part then place else if part = ".." then place.parent else place ++ [part]

/-- Where a path leads if it can be followed. -/
def Path.destination (here : Place) (path : Path) : Place :=
  path.parts.foldl Place.follow (path.start here)

/-- A part of a path that names something in the directory it stands in. -/
structure Path.IsName (part : String) : Prop where
  isBlank_eq : isBlank part = false
  ne_up : part ≠ ".."
  size_le : part.utf8ByteSize ≤ maxNameBytes

namespace Path

variable {names : List String}

/-- A path from the working directory down. -/
def ofNames (names : List String) : Path := ⟨false, names⟩

theorem IsName.ne_empty {part : String} (h : IsName part) : part ≠ "" := by
  rintro rfl
  have hBlank := h.isBlank_eq
  simp [isBlank] at hBlank

theorem isEmpty_ofNames (h : ∀ part ∈ names, IsName part) : (ofNames names).isEmpty = false := by
  rw [isEmpty, Bool.and_eq_false_iff]
  refine .inr (beq_eq_false_iff_ne.2 ?_)
  rintro hEmpty
  have hMem : "" ∈ names := by
    change "" ∈ (ofNames names).parts
    rw [hEmpty]
    exact List.mem_singleton_self _
  exact (h "" hMem).ne_empty rfl

theorem byteCount_take_le (names : List String) (count : Nat) :
    (ofNames (names.take count)).byteCount ≤ (ofNames names).byteCount := by
  simp only [byteCount, ofNames, ← List.sum_eq_foldl]
  have hSum : (names.map String.utf8ByteSize).sum =
      ((names.take count).map String.utf8ByteSize).sum +
        ((names.drop count).map String.utf8ByteSize).sum := by
    rw [← List.sum_append, ← List.map_append, List.take_append_drop]
  have hLength := List.length_take_le' count names
  omega

theorem check_eq_ok_iff {path : Path} :
    path.check = .ok () ↔
      path.hasNul = false ∧ path.byteCount ≤ maxPathBytes ∧ path.isEmpty = false := by
  rw [check]
  split
  · next hNul => simp [hNul]
  · next hNul =>
      split
      · next hLong => simp [Nat.not_le.2 hLong]
      · next hShort =>
          split
          · next hEmpty => simp [hEmpty]
          · next hSome => simp [hNul, Nat.not_lt.1 hShort, hSome]

/-- The directories above a path can be handed to the file system if the path can. -/
theorem check_take (hNames : ∀ part ∈ names, IsName part) (h : (ofNames names).check = .ok ())
    (count : Nat) : (ofNames (names.take count)).check = .ok () := by
  obtain ⟨hNul, hLength, -⟩ := check_eq_ok_iff.1 h
  refine check_eq_ok_iff.2 ⟨?_, Nat.le_trans (byteCount_take_le names count) hLength, ?_⟩
  · rw [hasNul, List.any_eq_false] at hNul ⊢
    intro part hPart
    exact hNul part (List.mem_of_mem_take hPart)
  · exact isEmpty_ofNames fun part hPart => hNames part (List.mem_of_mem_take hPart)

/-- Only parts that are to be dropped are dropped at the end. -/
theorem dropEnd_ofNames {drops : String → Bool} (h : ∀ part ∈ names, drops part = false) :
    (ofNames names).dropEnd drops = ofNames names := by
  have hKept : names.reverse.dropWhile drops = names.reverse := by
    rw [List.dropWhile_eq_self_iff]
    intro hSome
    rw [h _ (List.mem_reverse.1 (List.getElem_mem hSome))]
    exact Bool.false_ne_true
  simp only [dropEnd, ofNames, hKept, List.reverse_reverse]

/-- Above a path of names are the paths of its first names. -/
theorem ancestors_append (h : ∀ part ∈ names, IsName part) :
    (ofNames names).ancestors ++ [ofNames names] =
      (List.range' 0 (names.length + 1)).map fun i => ofNames (names.take i) := by
  rw [ancestors, dropEnd_ofNames fun part hPart => (h part hPart).isBlank_eq,
    ← List.range_eq_range', List.range_succ, List.map_append, List.map_singleton, List.take_length]
  rfl

theorem parent_take {i : Nat} (h : i < names.length) :
    (ofNames (names.take (i + 1))).parent = ofNames (names.take i) := by
  simp only [parent, ofNames]
  rw [List.take_succ_eq_append_getElem h, List.dropLast_concat]

/-- A path of plain names leads to the place that the names name from where it starts. -/
theorem destination_ofNames (here : Place) (h : ∀ part ∈ names, IsName part) :
    (ofNames names).destination here = here ++ names := by
  change names.foldl Place.follow here = here ++ names
  induction names generalizing here with
  | nil => exact (List.append_nil here).symm
  | cons part names ih =>
      have hPart := h part List.mem_cons_self
      rw [List.foldl_cons, Place.follow, hPart.isBlank_eq, if_neg Bool.false_ne_true,
        if_neg hPart.ne_up, ih _ fun other hOther => h other (List.mem_cons_of_mem _ hOther),
        List.append_assoc, List.singleton_append]

end Path

namespace FileTree

variable {tree : FileTree here α} {place : Place} {part : String}

theorem eq_follow_of_step {next : Place} (h : tree.step place part = .ok next) :
    next = place.follow part := by
  rw [step] at h
  rw [Place.follow]
  split at h
  · cases h
  · split at h
    · next hBlank =>
        rw [if_pos hBlank]
        exact (Except.ok.inj h).symm
    · next hNamed =>
        rw [if_neg hNamed]
        split at h
        · next hUp =>
            rw [if_pos hUp]
            exact (Except.ok.inj h).symm
        · next hDown =>
            rw [if_neg hDown]
            split at h
            · cases h
            · split at h
              · cases h
              · exact (Except.ok.inj h).symm

theorem eq_follow_of_steps {parts : List String} {start : Place}
    (h : parts.foldlM tree.step start = .ok place) : place = parts.foldl Place.follow start := by
  induction parts generalizing start with
  | nil => exact (Except.ok.inj h).symm
  | cons part parts ih =>
      rw [List.foldlM_cons] at h
      cases hStep : tree.step start part with
      | error e =>
          rw [hStep] at h
          cases h
      | ok next =>
          rw [hStep] at h
          rw [List.foldl_cons, ← eq_follow_of_step hStep]
          exact ih h

/-- All trees in which a path can be followed agree on where it leads. -/
theorem eq_destination_of_locate {path : Path} (h : tree.locate path = .ok place) :
    place = path.destination here := by
  rw [locate] at h
  cases hCheck : path.check with
  | error e =>
      rw [hCheck] at h
      cases h
  | ok _ =>
      rw [hCheck] at h
      exact eq_follow_of_steps h

theorem step_of_isName (hPlace : tree.node? place = some .directory) (hName : Path.IsName part) :
    tree.step place part =
      if (tree.node? (place ++ [part])).isNone then .error .missing else .ok (place ++ [part]) := by
  have hDirectory : tree.isDirectory place = true := by rw [isDirectory, hPlace]
  rw [step, hDirectory, hName.isBlank_eq, if_neg (by simp), if_neg (by simp), if_neg hName.ne_up,
    if_neg (Nat.not_lt.2 hName.size_le)]

/-- After an insertion there are directories up to where the tree starts, the new node
at its place, and elsewhere what was there. -/
theorem node?_insert (tree : FileTree here α) (place other : Place) (node : Node α) :
    (tree.insert place node).node? other =
      if other.isPrefixOf here then some .directory
      else if other = place then some node else tree.nodes.get? other := by
  rw [node?, insert, Table.get?_insert]

/-- A node that is put somewhere does not change what is elsewhere. -/
theorem node?_insert_ne {other : Place} (h : other ≠ place) (node : Node α) :
    (tree.insert place node).node? other = tree.node? other := by
  rw [node?_insert, if_neg h, node?]

/-- How far down from the working directory the directories of a row of names are
there: down to `count` names, and below that there is nothing. -/
structure Reaches (tree : FileTree here α) (names : List String) (count : Nat) : Prop where
  directory : ∀ i ≤ count, tree.node? (here ++ names.take i) = some .directory
  free : ∀ i, count < i → i ≤ names.length → tree.node? (here ++ names.take i) = none

/-- Two trees differ at most in the directories of a row of names. -/
def AgreeBeside (names : List String) (tree after : FileTree here α) : Prop :=
  ∀ place, (∀ i, place ≠ here ++ names.take i) → after.node? place = tree.node? place

theorem not_isPrefixOf_append {below : List String} (h : below ≠ []) :
    (here ++ below).isPrefixOf here = false := by
  rw [Bool.eq_false_iff]
  intro hPrefix
  have hLength := (List.isPrefixOf_iff_prefix.1 hPrefix).length_le
  rw [List.length_append] at hLength
  have hPos := List.length_pos_iff.2 h
  omega

theorem node?_here (tree : FileTree here α) : tree.node? here = some .directory :=
  if_pos (List.isPrefixOf_iff_prefix.2 (List.prefix_refl here))

/-- In an empty tree nothing is below the working directory. -/
theorem node?_empty {below : List String} (h : below ≠ []) :
    ({} : FileTree here α).node? (here ++ below) = none := by
  rw [node?, not_isPrefixOf_append h]
  rfl

theorem reaches_zero (names : List String) : ({} : FileTree here α).Reaches names 0 := by
  constructor
  · intro i hCount
    obtain rfl := Nat.le_zero.1 hCount
    rw [List.take_zero, List.append_nil]
    exact node?_here _
  · intro i hCount hLength
    apply node?_empty
    rw [← List.length_pos_iff, List.length_take]
    omega

theorem length_append_take_le (here : Place) (names : List String) (count : Nat) :
    (here ++ names.take count).length ≤ (here ++ names).length := by
  rw [List.length_append, List.length_append]
  exact Nat.add_le_add_left (List.length_take_le' count names) _

/-- What is further down than the names lead does not matter. -/
theorem Reaches.congr {names : List String} {count : Nat} {after : FileTree here α}
    (h : tree.Reaches names count)
    (hSame : ∀ place, place.length ≤ (here ++ names).length → after.node? place = tree.node? place) :
    after.Reaches names count := by
  constructor
  · intro i hi
    rw [hSame _ (length_append_take_le here names i), h.directory i hi]
  · intro i hi hLength
    rw [hSame _ (length_append_take_le here names i), h.free i hi hLength]

theorem Reaches.insert_next {names : List String} {count : Nat} (h : tree.Reaches names count)
    (hLess : count < names.length) :
    (tree.insert (here ++ names.take (count + 1)) .directory).Reaches names (count + 1) := by
  have hTake (i j : Nat) (hi : i ≤ names.length) (hj : j ≤ names.length) (hNe : i ≠ j) :
      here ++ names.take i ≠ here ++ names.take j := by
    intro hSame
    have hLength := congrArg List.length (List.append_cancel_left hSame)
    rw [List.length_take, List.length_take] at hLength
    omega
  constructor
  · intro i hi
    rcases Nat.le_succ_iff.1 hi with hBefore | rfl
    · rw [node?_insert_ne (hTake _ _ (by omega) hLess (by omega))]
      exact h.directory i hBefore
    · rw [node?_insert, if_pos rfl]
      split <;> rfl
  · intro i hi hLength
    rw [node?_insert_ne (hTake _ _ hLength hLess (by omega))]
    exact h.free i (by omega) hLength

section Reaches

variable {names : List String} {count i : Nat} (h : tree.Reaches names count)
  (hNames : ∀ part ∈ names, Path.IsName part) 

include h hNames

/-- A path of names can be followed as far as its directories are there. -/
theorem Reaches.steps (hLength : i ≤ names.length) :
    (names.take i).foldlM tree.step here =
      if i ≤ count then .ok (here ++ names.take i) else .error .missing := by
  induction i with
  | zero => 
      rw [List.take_zero, List.append_nil, if_pos (Nat.zero_le _)]
      rfl
  | succ i ih =>
      have hName := hNames _ (List.getElem_mem hLength)
      rw [List.take_succ_eq_append_getElem hLength, List.foldlM_append,
        ih (Nat.le_of_succ_le hLength)]
      by_cases hReached : i ≤ count
      · rw [if_pos hReached]
        change tree.step (here ++ names.take i) names[i] >>= pure = _
        rw [bind_pure, step_of_isName (h.directory i hReached) hName, List.append_assoc,
          ← List.take_succ_eq_append_getElem hLength]
        by_cases hNext : i + 1 ≤ count
        · rw [h.directory _ hNext, if_pos hNext]
          rfl
        · rw [h.free _ (Nat.lt_of_not_le hNext) hLength, if_neg hNext]
          rfl
      · rw [if_neg hReached, if_neg (by omega)]
        rfl

variable (hCheck : (Path.ofNames names).check = .ok ())

include hCheck

theorem Reaches.locate_take (hLength : i ≤ names.length) :
    tree.locate (Path.ofNames (names.take i)) =
      if i ≤ count then .ok (here ++ names.take i) else .error .missing := by
  rw [locate, Path.check_take hNames hCheck]
  exact h.steps hNames hLength

theorem Reaches.leadsToDirectory_take (hLength : i ≤ names.length) :
    tree.leadsToDirectory (Path.ofNames (names.take i)) = decide (i ≤ count) := by
  rw [leadsToDirectory, h.locate_take hNames hCheck hLength]
  by_cases hReached : i ≤ count
  · rw [if_pos hReached, decide_eq_true hReached]
    simp only [isDirectory, h.directory i hReached]
  · rw [if_neg hReached, decide_eq_false hReached]

omit h hCheck in
theorem makeDirectory_take (tree : FileTree here α) (i : Nat) :
    tree.makeDirectory (Path.ofNames (names.take i)) =
      tree.create (Path.ofNames (names.take i)) .directory := by
  rw [makeDirectory, Path.withoutSlashes, Path.dropEnd_ofNames fun part hPart =>
    decide_eq_false (hNames part (List.mem_of_mem_take hPart)).ne_empty]

/-- The next directory of a path can be made. -/
theorem Reaches.makeDirectory_next (hLess : count < names.length) :
    tree.makeDirectory (Path.ofNames (names.take (count + 1))) =
      .ok (tree.insert (here ++ names.take (count + 1)) .directory) := by
  have hTake : ∀ part ∈ names.take (count + 1), Path.IsName part := fun part hPart =>
    hNames part (List.mem_of_mem_take hPart)
  rw [makeDirectory_take hNames, create, h.locate_take hNames hCheck hLess,
    if_neg (Nat.not_succ_le_self count)]
  simp only
  rw [Path.isEmpty_ofNames hTake, if_neg Bool.false_ne_true, Path.parent_take hLess,
    h.locate_take hNames hCheck (Nat.le_of_lt hLess), if_pos (Nat.le_refl _)]
  change Except.ok
    (tree.insert (here ++ names.take count ++ (names.take (count + 1)).getLast?.toList) _) = _
  rw [List.take_succ_eq_append_getElem hLess, List.getLast?_concat, List.append_assoc]
  rfl

/-- A directory that is there already is not made again. -/
theorem Reaches.makeDirectory_here (hReached : i ≤ count) (hLength : i ≤ names.length) :
    tree.makeDirectory (Path.ofNames (names.take i)) = .error .occupied := by
  rw [makeDirectory_take hNames, create, h.locate_take hNames hCheck hLength, if_pos hReached]

/-- Not even the next directory is there. -/
theorem Reaches.makeDirectory_below (hBelow : count + 1 < i) (hLength : i ≤ names.length) :
    tree.makeDirectory (Path.ofNames (names.take i)) = .error .missing := by
  obtain ⟨i, rfl⟩ := Nat.exists_eq_add_one.2 (Nat.zero_lt_of_lt hBelow)
  have hTake : ∀ part ∈ names.take (i + 1), Path.IsName part := fun part hPart =>
    hNames part (List.mem_of_mem_take hPart)
  rw [makeDirectory_take hNames, create, h.locate_take hNames hCheck hLength, if_neg (by omega)]
  simp only
  rw [Path.isEmpty_ofNames hTake, if_neg Bool.false_ne_true, Path.parent_take hLength,
    h.locate_take hNames hCheck (Nat.le_of_lt hLength), if_neg (by omega)]
  rfl

/-- A directory that is there, or the next one, is passed by or made. -/
theorem Reaches.makeEach_cons (hNext : i ≤ count + 1) (hLength : i ≤ names.length)
    (paths : List Path) :
    ∃ after : FileTree here α,
      makeEach (Path.ofNames (names.take i) :: paths) tree = makeEach paths after ∧
        after.Reaches names (max count i) ∧ AgreeBeside names tree after := by
  rcases Nat.le_succ_iff.1 hNext with hReached | rfl
  · rw [Nat.max_eq_left hReached]
    refine ⟨tree, ?_, h, fun _ _ => rfl⟩
    rw [makeEach, h.makeDirectory_here hNames hCheck hReached hLength]
    simp only
    rw [h.leadsToDirectory_take hNames hCheck hLength, decide_eq_true hReached, if_pos rfl]
  · rw [Nat.max_eq_right (Nat.le_succ count)]
    refine ⟨_, ?_, h.insert_next hLength, fun place hPlace => node?_insert_ne (hPlace _) _⟩
    rw [makeEach, h.makeDirectory_next hNames hCheck hLength]

end Reaches

/-- From a directory that is there on, those below it are made in order. -/
theorem Reaches.makeEach_range {names : List String} {count : Nat} (h : tree.Reaches names count)
    (hNames : ∀ part ∈ names, Path.IsName part) (hCheck : (Path.ofNames names).check = .ok ())
    {first : Nat} (hFirst : first ≤ count + 1) (number : Nat)
    (hLength : first + number ≤ names.length + 1) :
    ∃ after : FileTree here α,
      makeEach ((List.range' first number).map fun i => Path.ofNames (names.take i)) tree =
        (.ok (), after) ∧
          after.Reaches names (max count (first + number - 1)) ∧ AgreeBeside names tree after := by
  induction number generalizing tree first count with
  | zero =>
      refine ⟨tree, rfl, ?_, fun _ _ => rfl⟩
      rwa [Nat.max_eq_left (by omega)]
  | succ number ih =>
      rw [List.range'_succ, List.map_cons]
      obtain ⟨between, hMade, hBetween, hBeside⟩ := h.makeEach_cons hNames hCheck hFirst (by omega) _
      have hNext : first + 1 ≤ max count first + 1 := by omega
      obtain ⟨after, hOthers, hAfter, hBesideAfter⟩ := ih hBetween hNext (by omega)
      refine ⟨after, hMade.trans hOthers, ?_, fun place hPlace =>
        (hBesideAfter place hPlace).trans (hBeside place hPlace)⟩
      convert hAfter using 1
      omega

/-- A path is found once all of its directories are there. -/
theorem Reaches.locate {names : List String} (h : tree.Reaches names names.length)
    (hNames : ∀ part ∈ names, Path.IsName part) (hCheck : (Path.ofNames names).check = .ok ()) :
    tree.locate (Path.ofNames names) = .ok (here ++ names) := by
  have hTake := h.locate_take hNames hCheck (Nat.le_refl _)
  rwa [List.take_length, if_pos (Nat.le_refl _)] at hTake

/-- Making the directories of a path of names makes those that are missing, and nothing
else. -/
theorem Reaches.makeDirectories {names : List String} {count : Nat} (h : tree.Reaches names count)
    (hNames : ∀ part ∈ names, Path.IsName part) (hCheck : (Path.ofNames names).check = .ok ())
    (hCount : count ≤ names.length) :
    ∃ after : FileTree here α,
      tree.makeDirectories (Path.ofNames names) = (.ok (), after) ∧
        after.Reaches names names.length ∧ AgreeBeside names tree after := by
  have hAll := Nat.le_refl names.length
  rw [FileTree.makeDirectories, Path.isEmpty_ofNames hNames, if_neg Bool.false_ne_true]
  rcases Nat.lt_or_ge (count + 1) names.length with hBelow | hNext
  · have hMissing : makeEach [Path.ofNames names] tree = (.error .missing, tree) := by
      have hMake := h.makeDirectory_below hNames hCheck hBelow hAll
      have hLeads := h.leadsToDirectory_take hNames hCheck hAll
      rw [List.take_length] at hMake hLeads
      rw [makeEach, hMake]
      simp only
      rw [hLeads, decide_eq_false (by omega), if_neg Bool.false_ne_true]
    obtain ⟨after, hMade, hAfter, hBeside⟩ :=
      h.makeEach_range hNames hCheck (Nat.zero_le _) (names.length + 1) (by omega)
    rw [Nat.zero_add, Nat.add_sub_cancel, Nat.max_eq_right hCount] at hAfter
    rw [hMissing]
    simp only
    rw [Path.ancestors_append hNames]
    exact ⟨after, hMade, hAfter, hBeside⟩
  · obtain ⟨after, hMade, hAfter, hBeside⟩ := h.makeEach_cons hNames hCheck hNext hAll []
    rw [List.take_length] at hMade
    rw [Nat.max_eq_right hCount] at hAfter
    refine ⟨after, ?_, hAfter, hBeside⟩
    rw [hMade]
    rfl

/-- A directory that is made in an empty tree is empty. -/
theorem makeDirectories_empty {names : List String} (hNames : ∀ part ∈ names, Path.IsName part)
    (hCheck : (Path.ofNames names).check = .ok ()) :
    ∃ after : FileTree here α,
      ({} : FileTree here α).makeDirectories (Path.ofNames names) = (.ok (), after) ∧
        after.Reaches names names.length ∧
        ∀ file, after.node? (here ++ names ++ [file]) = none := by
  obtain ⟨after, hMade, hReaches, hBeside⟩ :=
    (reaches_zero names).makeDirectories hNames hCheck (Nat.zero_le _)
  refine ⟨after, hMade, hReaches, fun file => ?_⟩
  have hBelow (i : Nat) : here ++ names ++ [file] ≠ here ++ names.take i := by
    intro hSame
    have hLength := length_append_take_le here names i
    rw [← hSame, List.length_append] at hLength
    exact Nat.not_succ_le_self _ hLength
  rw [hBeside _ hBelow, List.append_assoc]
  exact node?_empty (List.append_ne_nil_of_right_ne_nil _ (List.cons_ne_nil file []))

end FileTree

end NodeStore
