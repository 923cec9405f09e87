import ForwardAuth.Path
import Mathlib.Data.List.Basic

/-!
# Paths and their directories

A path that stands in a configuration file is meant from the directory that holds the file, so two
things have to be known: which directory that is, and what is made of a path and a directory. Both
are computed on texts. Here they are described by what the texts look like, one rule for each form,
and the computation is shown to follow the rules and nothing else.

The directory of a path is what stands before its last separator, unless that ends in parts that
lead nowhere, an empty one or a dot. These are passed over, up to the first part, which tells the
root from the directory where the path is taken from. Whether a path starts at the root is the same
for a path and for its directory. So a path that is taken from the directory of a path that starts
at the root starts there, too, and taking it from yet another directory does not change it any more.

## Main definitions

* `InDirectory`: Which directory a path leads to a file of.
* `Anchored`: What a path becomes when it is taken from a directory.

## Theorems

* `directory_eq_iff`: Each path has one directory, the one that is computed.
* `isAbsolute_directory`: A path starts at the root exactly if its directory does.
* `anchor_eq_iff`: A path taken from a directory becomes one path, the one that is computed.
* `isAbsolute_anchor`: Which paths start at the root once they are taken from a directory.
* `anchor_anchor`: A path that is taken from a directory at the root stays what it has become.
-/

namespace ForwardAuth.Path

/-- The directory that a path leads to a file of. -/
inductive InDirectory : String → String → Prop where
  /-- A bare name is that of a file where the path is taken from. -/
  | here {name : String} (hname : '/' ∉ name.toList) : InDirectory "" name
  | root {name : String} (hname : '/' ∉ name.toList) : InDirectory "/" ("/" ++ name)
  | first {part name : String} (hne : part ≠ "") (hpart : '/' ∉ part.toList)
      (hname : '/' ∉ name.toList) : InDirectory part (part ++ "/" ++ name)
  | under {parent part name : String} (hleads : part ≠ "" ∧ part ≠ ".") (hpart : '/' ∉ part.toList)
      (hname : '/' ∉ name.toList) :
      InDirectory (parent ++ "/" ++ part) (parent ++ "/" ++ part ++ "/" ++ name)
  /-- A part that leads nowhere is passed over. -/
  | idle {dir parent part name : String} (hidle : part = "" ∨ part = ".")
      (hname : '/' ∉ name.toList) (h : InDirectory dir (parent ++ "/" ++ name)) :
      InDirectory dir (parent ++ "/" ++ part ++ "/" ++ name)

/-- What a path becomes when it is taken from a directory. -/
inductive Anchored : String → String → String → Prop where
  | absolute {base path : String} (h : isAbsolute path = true) : Anchored base path path
  | nowhere {path : String} (h : isAbsolute path = false) : Anchored "" path path
  /-- The directory ends with a separator already. -/
  | behind {base path : String} (h : isAbsolute path = false)
      (hends : endsWithSeparator base = true) : Anchored base path (base ++ path)
  | joined {base path : String} (h : isAbsolute path = false) (hne : base ≠ "")
      (hends : endsWithSeparator base = false) : Anchored base path (base ++ "/" ++ path)

/-! ## Parts -/

theorem parts_of_notMem {name : String} (h : '/' ∉ name.toList) : parts name = [name.toList] :=
  List.splitOn_eq_singleton h

theorem parts_below (parent path : String) :
    parts (parent ++ "/" ++ path) = parts parent ++ parts path := by
  rw [parts, String.toList_append, String.toList_append, List.append_assoc]
  exact List.splitOn_append_cons_self parent.toList path.toList

theorem ofParts_parts (path : String) : ofParts (parts path) = path := by
  rw [ofParts, parts, List.intercalate_splitOn, String.ofList_toList]

theorem exists_parts (path : String) : ∃ first rest, parts path = first :: rest :=
  List.exists_cons_of_ne_nil (List.splitOn_ne_nil '/' path.toList)

theorem isIdle_iff (part : String) : isIdle part.toList = true ↔ part = "" ∨ part = "." := by
  rw [isIdle, Bool.or_eq_true, beq_iff_eq, beq_iff_eq]
  exact or_congr (@String.toList_inj part "") (@String.toList_inj part ".")

theorem dropIdle_concat (parts : List (List Char)) (part : List Char) :
    dropIdle (parts ++ [part]) = if isIdle part then dropIdle parts else parts ++ [part] := by
  rw [dropIdle, List.reverse_append, List.reverse_singleton, List.singleton_append,
    List.dropWhile_cons]
  split
  · rfl
  · rw [List.reverse_cons, List.reverse_reverse]

/-- The last part of a path is not looked at, and of the others those that lead nowhere do not count
    at the end. -/
theorem directory_below {parent part name : String} (hpart : '/' ∉ part.toList)
    (hname : '/' ∉ name.toList) : directory (parent ++ "/" ++ part ++ "/" ++ name)
      = if isIdle part.toList then directory (parent ++ "/" ++ name)
        else parent ++ "/" ++ part := by
  rcases exists_parts parent with ⟨first, rest, hparent⟩
  have hparts : parts (parent ++ "/" ++ part) = first :: (rest ++ [part.toList]) := by
    rw [parts_below, hparent, parts_of_notMem hpart, List.cons_append]
  rw [directory, parts_below, parts_of_notMem hname, List.dropLast_concat, hparts, ofDirectories,
    dropIdle_concat]
  by_cases hidle : isIdle part.toList = true
  · rw [if_pos hidle, if_pos hidle, directory, parts_below, parts_of_notMem hname,
      List.dropLast_concat, hparent]
    rfl
  · -- What is kept is not empty, so this is not the root.
    rw [if_neg hidle, if_neg hidle, ← hparts, ofParts_parts]
    refine if_neg ?_
    rw [List.isEmpty_eq_false_iff.mpr (List.append_ne_nil_of_right_ne_nil _ (List.cons_ne_nil _ _)),
      Bool.and_false]
    exact Bool.false_ne_true

/-! ## The directory of a path -/

theorem directory_of_inDirectory {dir path : String} (h : InDirectory dir path) :
    directory path = dir := by
  induction h with
  | here hname => rw [directory, parts_of_notMem hname]; rfl
  | root hname =>
      rw [directory, show "/" ++ _ = "" ++ "/" ++ _ from rfl, parts_below, parts_of_notMem hname]
      rfl
  | @first part name hne hpart hname =>
      have hparts : part.toList.isEmpty = false := by
        rw [List.isEmpty_eq_false_iff]
        exact fun hempty => hne (String.toList_inj.mp hempty)
      rw [directory, parts_below, parts_of_notMem hname, List.dropLast_concat,
        parts_of_notMem hpart, ofDirectories, hparts]
      exact (congrArg ofParts (parts_of_notMem hpart)).symm.trans (ofParts_parts part)
  | under hleads hpart hname =>
      rw [directory_below hpart hname, if_neg]
      rw [isIdle_iff, not_or]
      exact hleads
  | @idle dir parent part name hidle hname _ ih =>
      have hpart : '/' ∉ part.toList := by
        rcases hidle with rfl | rfl
        · decide
        · decide
      rw [directory_below hpart hname, if_pos ((isIdle_iff part).mpr hidle), ih]

/-- A path with a separator ends with the name that stands behind the last one. -/
theorem exists_name {path : String} (h : '/' ∈ path.toList) :
    ∃ parent name : String, path = parent ++ "/" ++ name ∧ '/' ∉ name.toList := by
  rcases List.eq_append_cons_of_mem (List.mem_reverse.mpr h) with ⟨name, parent, hsplit, hname⟩
  refine ⟨String.ofList parent.reverse, String.ofList name.reverse, ?_, ?_⟩
  · rw [← String.toList_inj, String.toList_append, String.toList_append, String.toList_ofList,
      String.toList_ofList, String.toList_ofList, ← List.reverse_reverse path.toList, hsplit,
      List.reverse_append, List.reverse_cons]
  · rwa [String.toList_ofList, List.mem_reverse]

/-- Every path has a directory. The induction is on the length of the path, since a part that leads
    nowhere is taken out of its middle. -/
theorem exists_inDirectory (path : String) : ∃ dir, InDirectory dir path := by
  induction hlength : path.length using Nat.strongRecOn generalizing path with
  | ind length ih =>
    by_cases hpath : '/' ∈ path.toList
    · rcases exists_name hpath with ⟨above, name, rfl, hname⟩
      by_cases habove : '/' ∈ above.toList
      · rcases exists_name habove with ⟨parent, part, rfl, hpart⟩
        by_cases hidle : part = "" ∨ part = "."
        · have hshorter : (parent ++ "/" ++ name).length < length := by
            rw [← hlength]
            rw [String.length_append, String.length_append, String.length_append,
              String.length_append, String.length_append, String.length_append]
            have hseparator : "/".length = 1 := rfl
            omega
          rcases ih _ hshorter _ rfl with ⟨dir, hdir⟩
          exact ⟨dir, .idle hidle hname hdir⟩
        · exact ⟨_, .under (not_or.mp hidle) hpart hname⟩
      · by_cases hempty : above = ""
        · rw [hempty]
          exact ⟨"/", .root hname⟩
        · exact ⟨above, .first hempty habove hname⟩
    · exact ⟨"", .here hpath⟩

/-- Each path has one directory, and that is the one which is computed. -/
theorem directory_eq_iff {dir path : String} : directory path = dir ↔ InDirectory dir path := by
  refine ⟨?_, directory_of_inDirectory⟩
  rintro rfl
  rcases exists_inDirectory path with ⟨dir, hdir⟩
  rw [directory_of_inDirectory hdir]
  exact hdir

/-! ## Paths that start at the root -/

theorem isAbsolute_append {start : String} (hne : start ≠ "") (rest : String) :
    isAbsolute (start ++ rest) = isAbsolute start := by
  rw [isAbsolute, isAbsolute, String.toList_append, List.head?_append_of_ne_nil]
  exact fun hempty => hne (String.toList_eq_nil_iff.mp hempty)

/-- Where a path starts is told by what stands before any of its separators. -/
theorem isAbsolute_below (parent path : String) :
    isAbsolute (parent ++ "/" ++ path) = (parent.isEmpty || isAbsolute parent) := by
  rw [String.append_assoc]
  by_cases hparent : parent = ""
  · rw [hparent, String.empty_append, isAbsolute_append (by decide)]
    rfl
  · rw [isAbsolute_append hparent, Bool.eq_false_iff.mpr (mt String.isEmpty_iff.mp hparent),
      Bool.false_or]

theorem isAbsolute_of_notMem {name : String} (h : '/' ∉ name.toList) : isAbsolute name = false := by
  rw [isAbsolute, beq_eq_false_iff_ne]
  exact fun hhead => h (List.mem_of_mem_head? hhead)

theorem isAbsolute_of_inDirectory {dir path : String} (h : InDirectory dir path) :
    isAbsolute dir = isAbsolute path := by
  have hdeep : ∀ parent part name : String, isAbsolute (parent ++ "/" ++ part ++ "/" ++ name)
      = (parent.isEmpty || isAbsolute parent) := fun parent part name => by
    rw [String.append_assoc, String.append_assoc, isAbsolute_below]
  induction h with
  | here hname => exact (isAbsolute_of_notMem hname).symm
  | root hname => exact (isAbsolute_below "" _).symm
  | first hne hpart hname => rw [String.append_assoc, isAbsolute_append hne]
  | under hleads hpart hname => rw [isAbsolute_below, hdeep]
  | idle hidle hname hdir ih => rw [hdeep, ih, isAbsolute_below]

/-- A path starts at the root exactly if its directory does. -/
theorem isAbsolute_directory (path : String) : isAbsolute (directory path) = isAbsolute path :=
  isAbsolute_of_inDirectory (directory_eq_iff.mp rfl)

/-! ## Paths taken from a directory -/

/-- A path that is taken from a directory becomes one path, the one that is computed. -/
theorem anchor_eq_iff {base path result : String} :
    anchor base path = result ↔ Anchored base path result := by
  rw [anchor]
  constructor
  · rintro rfl
    cases habsolute : isAbsolute path with
    | true => exact .absolute habsolute
    | false =>
        rw [if_neg Bool.false_ne_true]
        split_ifs with hadds
        · rw [Bool.or_eq_true, String.isEmpty_iff] at hadds
          rcases hadds with rfl | hends
          · exact .nowhere habsolute
          · exact .behind habsolute hends
        · rw [Bool.or_eq_true, String.isEmpty_iff, not_or, Bool.not_eq_true] at hadds
          exact .joined habsolute hadds.1 hadds.2
  · intro h
    cases h with
    | absolute h => rw [if_pos h]
    | nowhere h =>
        rw [h]
        rfl
    | behind h hends =>
        rw [h, hends, Bool.or_true]
        rfl
    | joined h hne hends =>
        rw [h, hends, Bool.or_false, if_neg Bool.false_ne_true,
          if_neg fun hempty => hne (String.isEmpty_iff.mp hempty)]

theorem anchor_of_isAbsolute {path : String} (h : isAbsolute path = true) (base : String) :
    anchor base path = path :=
  anchor_eq_iff.mpr (.absolute h)

theorem isAbsolute_of_anchored {base path result : String} (h : Anchored base path result) :
    isAbsolute result = (isAbsolute path || isAbsolute base) := by
  cases h with
  | absolute h => rw [h, Bool.true_or]
  | nowhere h =>
      rw [h]
      rfl
  | behind h hends =>
      have hne : base ≠ "" := by
        rintro rfl
        cases hends
      rw [isAbsolute_append hne, h, Bool.false_or]
  | joined h hne hends =>
      rw [String.append_assoc, isAbsolute_append hne, h, Bool.false_or]

/-- Once it is taken from a directory, a path starts at the root if it did before or if the
    directory does. -/
theorem isAbsolute_anchor (base path : String) :
    isAbsolute (anchor base path) = (isAbsolute path || isAbsolute base) :=
  isAbsolute_of_anchored (anchor_eq_iff.mp rfl)

/-- A path that was taken from a directory at the root stays what it has become. -/
theorem anchor_anchor {base : String} (h : isAbsolute base = true) (other path : String) :
    anchor other (anchor base path) = anchor base path := by
  refine anchor_of_isAbsolute ?_ other
  rw [isAbsolute_anchor, h, Bool.or_true]

end ForwardAuth.Path
