import LoxLexer.Proofs.FileHistory

/-!
# The numbers of files

A file table numbers the names that it is given in the order in which they first appear. The index
of names and the list of files stay inverse to each other, so a name that is put again leads to its
own file, and to no other. What the table answers about a number is then a matter of one file: the
last one that was put under the name that has the number.

## Main definitions

* `FileTable.putEach t fs`: puts the files `fs` one after the other, and collects their numbers
* `FileTable.names t`: the names of the files of `t`, by number
* `FileTable.Answers t id file`: all that `t` says about `id` is said of `file`
* `FileTable.Missing t id`: `t` has no answers about `id`
* `FileTable.Numbering fs ids t`: what files, their numbers and the table after them have to do
  with each other

## Main results

* `FileTable.WellFormed.put_fst`, `FileTable.WellFormed.names_put`: what a put does, by names
* `FileTable.names_putEach`, `FileTable.ids_putEach`: what many puts do, by names
* `FileTable.numbering_putEach`: files are numbered by name, and asked for by number
-/

namespace LoxLexer

/-- Duplicates are erased from the end. -/
theorem eraseDups_concat {α : Type} [BEq α] [LawfulBEq α] (l : List α) (a : α) [Decidable (a ∈ l)] :
    (l ++ [a]).eraseDups = if a ∈ l then l.eraseDups else l.eraseDups ++ [a] := by
  rw [List.eraseDups_append, List.removeAll]
  split
  · rename_i h
    simp [h]
  · rename_i h
    simp [h, List.eraseDups_cons]

namespace FileTable

variable {t : FileTable} {file : SourceFile} {fs : List SourceFile} {id : Nat}

/-! ## Answers -/

section Answers

/-- **All that a table says about a number is said of one file.** -/
structure Answers (t : FileTable) (id : Nat) (file : SourceFile) : Prop where
  name : t.name id = .ok file.name
  text : t.text id = .ok file.text
  lineIndex : ∀ offset, t.lineIndex id offset =
    (file.lines.lineOf offset).mapError fun
      | .beforeFirstLine => .beforeFirstLine
      | _ => .indexTooLarge offset file.text.utf8ByteSize
  lineRange : ∀ line, t.lineRange id line =
    (file.lines.lineRange line).mapError fun _ => .lineTooLarge line file.lines.lines
  lineSpan : ∀ line, t.lineSpan id line =
    match file.lines.lineRange (line - 1) with
    | .error _ => .error (.lineTooLarge (line - 1) file.lines.lines)
    | .ok range =>
      match Utf8.slice? file.text range.start range.stop with
      | none => .error .notInText
      | some bytes => .ok ⟨range.start, range.start + (withoutLineEnd bytes).length⟩

/-- **A table has no answers about a number.** -/
structure Missing (t : FileTable) (id : Nat) : Prop where
  name : t.name id = .error .fileMissing
  text : t.text id = .error .fileMissing
  lineIndex : ∀ offset, t.lineIndex id offset = .error .fileMissing
  lineRange : ∀ line, t.lineRange id line = .error .fileMissing
  lineSpan : ∀ line, t.lineSpan id line = .error .fileMissing

theorem answers_of_getElem? (h : t.files[id]? = some file) : t.Answers id file := by
  have hget : t.get id = .ok file := by rw [get, h]
  have hrange (line : Nat) : t.lineRange id line =
      (file.lines.lineRange line).mapError fun _ => .lineTooLarge line file.lines.lines := by
    rw [FileTable.lineRange, hget]
    simp only [bind, Except.bind]
    cases file.lines.lineRange line <;> rfl
  refine ⟨?_, ?_, ?_, hrange, ?_⟩
  · rw [FileTable.name, hget]
    rfl
  · rw [FileTable.text, hget]
    rfl
  · intro offset
    rw [FileTable.lineIndex, hget]
    simp only [bind, Except.bind]
    cases file.lines.lineOf offset with
    | ok line => rfl
    | error e => cases e <;> rfl
  · intro line
    rw [FileTable.lineSpan, FileTable.lineBytes, hget, hrange]
    simp only [bind, Except.bind]
    cases file.lines.lineRange (line - 1) with
    | error e => rfl
    | ok range =>
      simp only [Except.mapError]
      cases Utf8.slice? file.text range.start range.stop <;> rfl

theorem missing_of_size_le (h : t.files.size ≤ id) : t.Missing id := by
  have hget : t.get id = .error .fileMissing := by rw [get, Array.getElem?_eq_none h]
  have hrange (line : Nat) : t.lineRange id line = .error .fileMissing := by
    rw [FileTable.lineRange, hget]
    rfl
  refine ⟨?_, ?_, ?_, hrange, ?_⟩
  · rw [FileTable.name, hget]
    rfl
  · rw [FileTable.text, hget]
    rfl
  · intro offset
    rw [FileTable.lineIndex, hget]
    rfl
  · intro line
    rw [FileTable.lineSpan, hrange]
    rfl

end Answers

/-! ## One put -/

section Names

/-- The names of the files, by number. -/
def names (t : FileTable) : List String :=
  t.files.toList.map SourceFile.name

@[simp] theorem length_names (t : FileTable) : t.names.length = t.files.size := by
  rw [names, List.length_map, Array.length_toList]

theorem getElem?_names (t : FileTable) (id : Nat) :
    t.names[id]? = t.files[id]?.map SourceFile.name := by
  rw [names, List.getElem?_map, Array.getElem?_toList]

/-- The index gives each name its place among the names. -/
theorem WellFormed.lookup_eq (h : t.WellFormed) (name : String) :
    t.index.lookup name = if name ∈ t.names then some (t.names.idxOf name) else none := by
  split
  · rename_i hmem
    rw [h, ← getElem?_names, List.getElem?_idxOf hmem]
  · rename_i hmem
    rw [Option.eq_none_iff_forall_ne_some]
    intro id hlookup
    rw [h, ← getElem?_names] at hlookup
    exact hmem (List.mem_of_getElem? hlookup)

/-- **The number of a file** is the place of its name among the names, or behind all of them. -/
theorem WellFormed.put_fst (h : t.WellFormed) (file : SourceFile) :
    (t.put file).1 = t.names.idxOf file.name := by
  have hlookup := h.lookup_eq file.name
  rw [FileTable.put]
  split at hlookup
  · rw [hlookup]
  · rename_i hmem
    rw [hlookup, List.idxOf_eq_length hmem, length_names]

/-- **The names after a put**: one more, unless it is known. -/
theorem WellFormed.names_put (h : t.WellFormed) (file : SourceFile) :
    (t.put file).2.names =
      if file.name ∈ t.names then t.names else t.names ++ [file.name] := by
  have hlookup := h.lookup_eq file.name
  rw [FileTable.put]
  split at hlookup
  · rename_i hmem
    rw [hlookup, if_pos hmem]
    apply List.ext_getElem?
    intro id
    rw [getElem?_names, getElem?_names, Array.getElem?_setIfInBounds]
    split
    · -- the file that is replaced has the name already
      rename_i heq
      have hlt := List.idxOf_lt_length_of_mem hmem
      rw [length_names] at hlt
      rw [if_pos hlt, Option.map_some, ← getElem?_names, ← heq, List.getElem?_idxOf hmem]
    · rfl
  · rename_i hmem
    rw [hlookup, if_neg hmem]
    simp [names]

/-- A put leaves the files under other numbers alone. -/
theorem getElem?_put_of_ne (hid : id < t.files.size) (hne : id ≠ (t.put file).1) :
    (t.put file).2.files[id]? = t.files[id]? := by
  rw [FileTable.put] at hne ⊢
  split at hne
  · exact Array.getElem?_setIfInBounds_ne (Ne.symm hne)
  · exact (Array.getElem?_push_lt hid).trans (Array.getElem?_eq_getElem hid).symm

end Names

/-! ## Many puts -/

section PutEach

/-- **Puts files one after the other**, and collects their numbers. -/
def putEach (t : FileTable) : List SourceFile → List Nat × FileTable
  | [] => ([], t)
  | file :: fs =>
    ((t.put file).1 :: ((t.put file).2.putEach fs).1, ((t.put file).2.putEach fs).2)

theorem putEach_concat (t : FileTable) (fs : List SourceFile) (file : SourceFile) :
    t.putEach (fs ++ [file]) =
      ((t.putEach fs).1 ++ [((t.putEach fs).2.put file).1], ((t.putEach fs).2.put file).2) := by
  induction fs generalizing t with
  | nil => rfl
  | cons f fs ih =>
    rw [List.cons_append, putEach, ih]
    rfl

theorem putEach_snd (t : FileTable) (fs : List SourceFile) : (t.putEach fs).2 = t.putAll fs := by
  induction fs using List.reverseRecOn with
  | nil => rfl
  | append_singleton fs file ih => rw [putEach_concat, putAll_concat, ih]

theorem wellFormed_putEach (fs : List SourceFile) : (empty.putEach fs).2.WellFormed := by
  rw [putEach_snd]
  exact wellFormed_empty.putAll fs

/-- **The names of the table** are those of the files, in the order in which they first appear. -/
theorem names_putEach (fs : List SourceFile) :
    (empty.putEach fs).2.names = (fs.map SourceFile.name).eraseDups := by
  induction fs using List.reverseRecOn with
  | nil => rfl
  | append_singleton fs file ih =>
    rw [putEach_concat, (wellFormed_putEach fs).names_put, List.map_append, List.map_singleton,
      eraseDups_concat, ih]
    simp only [List.mem_eraseDups]

theorem mem_names_putEach {name : String} :
    name ∈ (empty.putEach fs).2.names ↔ ∃ f ∈ fs, f.name = name := by
  rw [names_putEach, List.mem_eraseDups, List.mem_map]

/-- **The numbers of the files** are the places of their names. -/
theorem ids_putEach (fs : List SourceFile) :
    (empty.putEach fs).1 = fs.map fun f => (empty.putEach fs).2.names.idxOf f.name := by
  induction fs using List.reverseRecOn with
  | nil => rfl
  | append_singleton fs file ih =>
    have hput := (wellFormed_putEach fs).names_put file
    rw [putEach_concat, (wellFormed_putEach fs).put_fst, List.map_append, List.map_singleton]
    dsimp only
    -- names keep their places when one is added behind them
    have grown : (empty.putEach fs).2.names <+: ((empty.putEach fs).2.put file).2.names := by
      rw [hput]
      split
      · exact List.prefix_rfl
      · exact List.prefix_append _ _
    congr 1
    · rw [ih]
      apply List.map_congr_left
      intro f hf
      exact grown.idxOf_eq_of_mem (mem_names_putEach.mpr ⟨f, hf, rfl⟩)
    · rw [hput]
      split
      · rfl
      · rename_i hmem
        rw [List.idxOf_append_of_notMem hmem, List.idxOf_cons_self, Nat.add_zero,
          List.idxOf_eq_length hmem]

/-- **Numbers first appear in order**, without gaps. -/
theorem eraseDups_ids_putEach (fs : List SourceFile) :
    (empty.putEach fs).1.eraseDups = List.range (empty.putEach fs).2.files.size := by
  induction fs using List.reverseRecOn with
  | nil => rfl
  | append_singleton fs file ih =>
    have hput := congrArg List.length ((wellFormed_putEach fs).names_put file)
    have hids (id : Nat) : id ∈ (empty.putEach fs).1 ↔ id < (empty.putEach fs).2.files.size := by
      rw [← List.mem_eraseDups, ih, List.mem_range]
    rw [putEach_concat, (wellFormed_putEach fs).put_fst, eraseDups_concat]
    simp only [hids, ih, ← length_names]
    by_cases hmem : file.name ∈ (empty.putEach fs).2.names
    · rw [if_pos hmem] at hput
      rw [if_pos (List.idxOf_lt_length_of_mem hmem), hput]
    · rw [if_neg hmem, List.length_append, List.length_singleton] at hput
      rw [List.idxOf_eq_length hmem, if_neg (Nat.lt_irrefl _), hput, List.range_succ]

/-- **The file that has the number of a name** is the last one under that name. -/
theorem getElem?_putEach (hfile : file ∈ fs) :
    ∃ g, (fs.filter fun f => f.name = file.name).getLast? = some g ∧ g.name = file.name ∧
      (empty.putEach fs).2.files[(empty.putEach fs).2.names.idxOf file.name]? = some g := by
  have hmem : file.name ∈ (empty.putEach fs).2.names := mem_names_putEach.mpr ⟨file, hfile, rfl⟩
  have hname := List.getElem?_idxOf hmem
  rw [getElem?_names, Option.map_eq_some_iff] at hname
  obtain ⟨g, hg, hgname⟩ := hname
  refine ⟨g, ?_, hgname, hg⟩
  rw [← hgname]
  apply (mem_putAll fs).mp
  have hg' := Array.mem_of_getElem? hg
  rw [putEach_snd] at hg'
  exact hg'

/-- A file keeps its place while files with other names are put. -/
theorem WellFormed.getElem?_putEach_of_ne (h : t.WellFormed) {gs : List SourceFile}
    (hfile : t.files[id]? = some file) (hne : ∀ g ∈ gs, g.name ≠ file.name) :
    (t.putEach gs).2.files[id]? = some file := by
  induction gs generalizing t with
  | nil => exact hfile
  | cons g gs ih =>
    obtain ⟨hg, hgs⟩ := List.forall_mem_cons.mp hne
    apply ih (h.put g) _ hgs
    obtain ⟨hid, -⟩ := Array.getElem?_eq_some_iff.mp hfile
    rw [getElem?_put_of_ne hid, hfile]
    -- the name that is put has another place
    intro heq
    have hplace : t.names[id]? = some file.name := by rw [getElem?_names, hfile, Option.map_some]
    rw [h.put_fst] at heq
    rw [heq] at hplace
    obtain ⟨hlt, hget⟩ := List.getElem?_eq_some_iff.mp hplace
    exact hg ((List.getElem_idxOf hlt).symm.trans hget)

/-- **Files, their numbers, and the table after them.** -/
structure Numbering (fs : List SourceFile) (ids : List Nat) (t : FileTable) : Prop where
  /-- The number of a file is the place of its name, in the order in which names first appear. -/
  number : ids = fs.map fun f => (fs.map SourceFile.name).eraseDups.idxOf f.name
  /-- Two files have the same number exactly if they have the same name. -/
  same : ∀ i j, (hi : i < fs.length) → (hj : j < fs.length) →
    (ids[i]? = ids[j]? ↔ fs[i].name = fs[j].name)
  /-- The numbers are zero, one, two and so on, in the order in which they first appear. -/
  order : ids.eraseDups = List.range (fs.map SourceFile.name).eraseDups.length
  /-- All that the table says about the number of a name is said of the last file under that name,
  and still so after any files with other names. -/
  last : ∀ (i : Nat) (f : SourceFile) (id : Nat), fs[i]? = some f → ids[i]? = some id →
    ∃ g, (fs.filter fun f' => f'.name = f.name).getLast? = some g ∧ t.Answers id g ∧
      ∀ gs : List SourceFile, (∀ g' ∈ gs, g'.name ≠ f.name) → (t.putEach gs).2.Answers id g
  /-- The table has no answers about other numbers. -/
  missing : ∀ id, id ∉ ids → t.Missing id

/-- **Files are numbered by name, and asked for by number.** However files are put into an empty
table, two of them have the same number exactly if they have the same name, and names are numbered
from zero in the order in which they first appear. Afterwards the table answers every question about
a number from the last file under the name that has it, whatever is put under other names, and a
number that was never given has no answers. -/
theorem numbering_putEach (fs : List SourceFile) :
    Numbering fs (empty.putEach fs).1 (empty.putEach fs).2 where
  number := by
    rw [ids_putEach, names_putEach]
  same i j hi hj := by
    have hmem : fs[i].name ∈ (empty.putEach fs).2.names :=
      mem_names_putEach.mpr ⟨_, List.getElem_mem hi, rfl⟩
    rw [ids_putEach, List.getElem?_map, List.getElem?_map, List.getElem?_eq_getElem hi,
      List.getElem?_eq_getElem hj, Option.map_some, Option.map_some, Option.some_inj,
      List.idxOf_inj hmem]
  order := by
    rw [eraseDups_ids_putEach, ← names_putEach, length_names]
  last i f id hf hid := by
    obtain ⟨g, hlast, hname, hg⟩ := getElem?_putEach (List.mem_of_getElem? hf)
    rw [ids_putEach, List.getElem?_map, hf, Option.map_some, Option.some_inj] at hid
    rw [hid] at hg
    refine ⟨g, hlast, answers_of_getElem? hg, ?_⟩
    intro gs hne
    rw [← hname] at hne
    exact answers_of_getElem? ((wellFormed_putEach fs).getElem?_putEach_of_ne hg hne)
  missing id hid := by
    apply missing_of_size_le
    rw [← List.mem_eraseDups, eraseDups_ids_putEach, List.mem_range] at hid
    exact Nat.le_of_not_lt hid

/-- A name that is put again keeps its number. -/
example :
    (empty.putEach [⟨"a", "", .ofBytes []⟩, ⟨"b", "", .ofBytes []⟩, ⟨"a", "", .ofBytes []⟩]).1 =
      [0, 1, 0] := by decide

end PutEach

end FileTable

end LoxLexer
