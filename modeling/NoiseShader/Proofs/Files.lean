import NoiseShader.Files
import NoiseShader.Proofs.Attempt

set_option autoImplicit false

/-! # Writing a file

A file that was written is read back as it was written (`Files.read_of_write`), and every path that
leads elsewhere is read as before (`Files.read_other_iff`). This takes some care as paths are followed
through directories, and a new file could turn what is above it into directories. But nothing is ever
written that is not in a directory already (`Files.within_of_locate`), so writing leaves the
directories as they are, and every path that leads somewhere leads there still.
-/

namespace NoiseShader.Files

variable {files : Files} {location : Location}

theorem isDirectory_iff (files : Files) (l : Location) : files.isDirectory l = true ↔
    Path.isStart l = true ∨ l ∈ files.directories ∨
      ∃ entry ∈ files.entries, l <+: entry.1 ∧ l ≠ entry.1 := by
  simp [isDirectory, or_assoc]

/-! ## Where paths lead -/

/-- All that is above the location is a directory. -/
def Within (files : Files) (location : Location) : Prop :=
  ∀ l, l <+: location → l ≠ location → files.isDirectory l = true

theorem Within.append (h : files.Within location) (hdirectory : files.isDirectory location = true)
    (name : String) : files.Within (location ++ [name]) := by
  intro l hl hne
  rcases List.prefix_concat_iff.mp hl with heq | hl
  · exact absurd heq hne
  · by_cases heq : l = location
    · rw [heq]
      exact hdirectory
    · exact h l hl heq

theorem Within.dropLast (h : files.Within location) : files.Within location.dropLast := by
  intro l hl hne
  refine h l (hl.trans location.dropLast_prefix) ?_
  -- the location itself cannot stand in front of its last name, unless it has none
  rintro rfl
  exact hne (List.IsPrefix.eq_of_length_le hl (by simp))

theorem Within.follow (h : files.Within location) (hdirectory : files.isDirectory location = true)
    (name : String) : files.Within (Path.follow location name) := by
  unfold Path.follow
  split
  · exact h
  · split
    · exact h.append hdirectory name
    · split
      · exact h
      · split
        · exact h.append hdirectory Path.up
        · exact h.dropLast

theorem enter_eq_ok_iff (files : Files) (location : Location) (name : String) (l : Location) :
    files.enter location name = .ok l ↔ files.isDirectory location = true ∧
      name.utf8ByteSize ≤ Path.nameLimit ∧ Path.follow location name = l := by
  unfold enter
  by_cases hdirectory : files.isDirectory location = true
  · rw [if_pos hdirectory]
    by_cases hlimit : Path.nameLimit < name.utf8ByteSize
    · rw [if_pos hlimit]
      simp [hdirectory, Nat.not_le.mpr hlimit]
    · rw [if_neg hlimit]
      simp [hdirectory, Nat.not_lt.mp hlimit]
  · rw [if_neg hdirectory]
    have herror : ∀ e : FileError, (Except.error e : Except FileError Location) ≠ .ok l := by simp
    refine iff_of_false ?_ (fun hl => hdirectory hl.1)
    split
    · exact herror _
    · exact herror _

theorem within_of_steps {names : List String} {start : Location}
    (h : names.foldlM files.enter start = .ok location) (hstart : files.Within start) :
    files.Within location := by
  induction names generalizing start with
  | nil =>
      obtain rfl := Except.ok.inj h
      exact hstart
  | cons name names ih =>
      rw [List.foldlM_cons] at h
      obtain ⟨next, hnext, h⟩ := Attempt.bind_eq_ok_iff.mp h
      obtain ⟨hdirectory, _, rfl⟩ := (files.enter_eq_ok_iff start name next).mp hnext
      exact ih h (hstart.follow hdirectory name)

theorem locate_eq_ok_iff (files : Files) (path : String) (location : Location) :
    files.locate path = .ok location ↔ '\x00' ∉ path.toList ∧
      path.utf8ByteSize < Path.pathLimit ∧ (Path.names path).foldlM files.enter [] = .ok location := by
  unfold locate
  by_cases hnull : '\x00' ∈ path.toList
  · rw [if_pos (List.contains_iff_mem.mpr hnull)]
    simp [hnull]
  · rw [if_neg (by simpa using hnull)]
    by_cases hlimit : Path.pathLimit ≤ path.utf8ByteSize
    · rw [if_pos hlimit]
      simp [Nat.not_lt.mpr hlimit]
    · rw [if_neg hlimit]
      simp [hnull, Nat.not_le.mp hlimit]

/-- A path leads through directories. -/
theorem within_of_locate {path : String} (h : files.locate path = .ok location) :
    files.Within location := by
  refine within_of_steps ((files.locate_eq_ok_iff path location).mp h).2.2 ?_
  intro l hl hne
  exact absurd (List.prefix_nil.mp hl) hne

/-! ## What a new file changes -/

theorem isDirectory_put (h : files.Within location) (content : List UInt8) (l : Location) :
    (files.put location content).isDirectory l = files.isDirectory l := by
  rw [Bool.eq_iff_iff, isDirectory_iff]
  constructor
  · rintro (hstart | hdirectory | ⟨entry, hentry, hl, hne⟩)
    · exact (files.isDirectory_iff l).mpr (.inl hstart)
    · exact (files.isDirectory_iff l).mpr (.inr (.inl hdirectory))
    · rcases List.mem_append.mp hentry with hentry | hentry
      · exact (files.isDirectory_iff l).mpr
          (.inr (.inr ⟨entry, (List.mem_filter.mp hentry).1, hl, hne⟩))
      · obtain rfl := List.mem_singleton.mp hentry
        exact h l hl hne
  · intro hold
    rcases (files.isDirectory_iff l).mp hold with hstart | hdirectory | ⟨entry, hentry, hl, hne⟩
    · exact .inl hstart
    · exact .inr (.inl hdirectory)
    · refine .inr (.inr ?_)
      by_cases heq : entry.1 = location
      · -- the entry is replaced by one in the same place
        rw [heq] at hl hne
        exact ⟨(location, content), List.mem_append_right _ (List.mem_singleton_self _), hl, hne⟩
      · exact ⟨entry, List.mem_append_left _ (List.mem_filter.mpr ⟨hentry, by simpa using heq⟩),
          hl, hne⟩

theorem content?_put_self (files : Files) (location : Location) (content : List UInt8) :
    (files.put location content).content? location = some content := by
  have hnone : (files.entries.filter fun entry => entry.1 != location).find?
      (fun entry => entry.1 == location) = none := by
    rw [List.find?_eq_none]
    intro entry hentry
    simpa using (List.mem_filter.mp hentry).2
  unfold content? put
  simp only [List.find?_append, hnone]
  simp

theorem content?_put_of_ne {l : Location} (h : l ≠ location) (content : List UInt8) :
    (files.put location content).content? l = files.content? l := by
  have hnew : [(location, content)].find? (fun entry => entry.1 == l) = none := by
    simp [Ne.symm h]
  unfold content? put
  simp only [List.find?_append, hnew, Option.or_none, List.find?_filter]
  -- what is looked for is never among what was taken out
  congr 2
  funext entry
  by_cases heq : entry.1 = l
  · simp [heq, h]
  · simp [heq]

theorem steps_put_iff (h : files.Within location) (content : List UInt8) (names : List String)
    (start l : Location) : names.foldlM (files.put location content).enter start = .ok l ↔
      names.foldlM files.enter start = .ok l := by
  induction names generalizing start with
  | nil => exact Iff.rfl
  | cons name names ih =>
      simp only [List.foldlM_cons, Attempt.bind_eq_ok_iff, enter_eq_ok_iff, isDirectory_put h, ih]

/-- A path that leads somewhere leads there still, and no other does. -/
theorem locate_put_iff (h : files.Within location) (content : List UInt8) (path : String)
    (l : Location) :
    (files.put location content).locate path = .ok l ↔ files.locate path = .ok l := by
  rw [locate_eq_ok_iff, locate_eq_ok_iff, steps_put_iff h]

/-! ## Reading and writing -/

theorem read_eq_ok_iff (files : Files) (path : String) (content : List UInt8) :
    files.read path = .ok content ↔ ∃ location, files.locate path = .ok location ∧
      files.isDirectory location = false ∧ files.content? location = some content ∧
      Path.ofDirectory path = false := by
  unfold read
  rw [Attempt.bind_eq_ok_iff]
  refine exists_congr fun location => and_congr_right fun _ => ?_
  cases files.isDirectory location with
  | true => simp
  | false =>
      cases files.content? location with
      | none => simp
      | some found => cases Path.ofDirectory path <;> simp

theorem write_eq_ok_iff (files : Files) (path : String) (content : List UInt8) (files' : Files) :
    files.write path content = .ok files' ↔ ∃ location, files.locate path = .ok location ∧
      files.isDirectory location = false ∧ Path.ofDirectory path = false ∧
      files' = files.put location content := by
  unfold write
  rw [Attempt.bind_eq_ok_iff]
  refine exists_congr fun location => and_congr_right fun _ => ?_
  cases files.isDirectory location <;> cases Path.ofDirectory path <;> simp [eq_comm]

section

variable {path : String} {content : List UInt8} {files' : Files}

theorem read_of_write (h : files.write path content = .ok files') : files'.read path = .ok content := by
  obtain ⟨location, hlocate, hdirectory, hpath, rfl⟩ := (write_eq_ok_iff _ _ _ _).mp h
  have hwithin := within_of_locate hlocate
  rw [read_eq_ok_iff]
  refine ⟨location, ?_, ?_, files.content?_put_self location content, hpath⟩
  · rwa [locate_put_iff hwithin]
  · rwa [isDirectory_put hwithin]

/-- A path that leads to another place is read as before. -/
theorem read_other_iff (h : files.write path content = .ok files') {other : String}
    (hother : files.locate other ≠ files.locate path) (old : List UInt8) :
    files'.read other = .ok old ↔ files.read other = .ok old := by
  obtain ⟨location, hlocate, _, _, rfl⟩ := (write_eq_ok_iff _ _ _ _).mp h
  have hwithin := within_of_locate hlocate
  rw [read_eq_ok_iff, read_eq_ok_iff]
  refine exists_congr fun l => ?_
  rw [locate_put_iff hwithin, isDirectory_put hwithin]
  refine and_congr_right fun hl => ?_
  have hne : l ≠ location := by
    rintro rfl
    exact hother (hl.trans hlocate.symm)
  rw [content?_put_of_ne hne]

end

end NoiseShader.Files
