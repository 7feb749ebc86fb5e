import NoiseShader.Proofs.Document.Size
import NoiseShader.Proofs.Files
import NoiseShader.Proofs.Payload

set_option autoImplicit false

/-! # Stored graphs

A graph that was loaded is storable: both forms keep it (`Graph.storable_of_load`). It is loaded from
where it was saved as it was, up to the payload of constants that are not numbers
(`Graph.Storable.load_of_save`), and settings elsewhere are not touched (`Settings.load_of_save_iff`).
-/

namespace NoiseShader

/-- The file holds the bytes of the text. -/
theorem Files.readText_eq_ok_iff (files : Files) (path text : String) :
    files.readText path = .ok text ↔ files.read path = .ok text.toUTF8.data.toList := by
  unfold readText
  rw [Attempt.bind_eq_ok_iff]
  constructor
  · rintro ⟨content, hread, h⟩
    split at h
    · next found hfound =>
        obtain rfl := Except.ok.inj h
        rw [hread, (Document.Bytes.fromUTF8?_eq_some_iff content found).mp hfound]
    · cases h
  · intro h
    refine ⟨_, h, ?_⟩
    rw [(Document.Bytes.fromUTF8?_eq_some_iff _ text).mpr rfl]

namespace Graph

variable {files files' : Files} {path : String} {g : Graph}

/-! ## Loading -/

theorem load_text_iff (hpath : Path.isText path = true) (files : Files) (g : Graph) :
    load files path = .ok g ↔
      ∃ text : String, files.read path = .ok text.toUTF8.data.toList ∧ ofText text = .ok g := by
  unfold load
  rw [if_pos hpath]
  simp only [← Files.readText_eq_ok_iff]
  cases files.readText path with
  | error e => simp
  | ok text => simp

theorem load_bytes_iff (hpath : ¬ Path.isText path = true) (files : Files) (g : Graph) :
    load files path = .ok g ↔ ∃ bytes, files.read path = .ok bytes ∧ ofBytes bytes = .ok g := by
  unfold load
  rw [if_neg hpath]
  cases files.read path with
  | error e => simp
  | ok bytes => simp

/-- Graphs that both forms keep. -/
structure Storable (g : Graph) : Prop where
  wellFormed : g.WellFormed
  addressable : g.document.Addressable

theorem storable_of_load (h : load files path = .ok g)
    (hsize : ∀ content, files.read path = .ok content → content.length < lengthCount) :
    g.Storable := by
  by_cases hpath : Path.isText path = true
  · obtain ⟨text, hread, hg⟩ := (load_text_iff hpath files g).mp h
    exact ⟨(Built.text hg).wellFormed, addressable_of_ofText hg (hsize _ hread)⟩
  · obtain ⟨bytes, _, hg⟩ := (load_bytes_iff hpath files g).mp h
    exact ⟨(Built.bytes hg).wellFormed, addressable_of_ofBytes hg⟩

/-! ## Saving -/

theorem Storable.quiet (h : g.Storable) : g.quiet.Storable where
  wellFormed := Document.wellFormed_graph h.wellFormed.graph_spelled
  addressable := addressable_quiet h.addressable

theorem Storable.ofText_toText (h : g.Storable) : ofText g.toText = .ok g.quiet := by
  rw [ofText, toText, Document.Text.read?_write]
  simp only [ofDocument, h.wellFormed.graph_spelled]
  rfl

theorem Storable.ofBytes_toBytes (h : g.Storable) : ofBytes g.toBytes = .ok g := by
  have hdecode : Document.Bytes.decode (Document.Bytes.encode g.document) =
      some (g.document, []) :=
    (Document.Bytes.exact_document _ _ _).mpr ⟨h.addressable, (List.append_nil _).symm⟩
  rw [ofBytes, toBytes, hdecode]
  exact h.wellFormed.ofDocument_document

/-- What the graph is saved as is written to one file. -/
theorem exists_write_of_save (h : g.save files path = .ok files') :
    ∃ content, files.write path content = .ok files' ∧
      content = if Path.isText path then g.toText.toUTF8.data.toList else g.toBytes := by
  refine ⟨_, ?_, rfl⟩
  have hwrite := Attempt.mapError_eq_ok_iff.mp h
  split at hwrite
  · next hpath => rwa [if_pos hpath]
  · next hpath => rwa [if_neg hpath]

/-- What is loaded from where a graph was saved is the graph again, up to what text does not
keep. -/
theorem Storable.load_of_save (hg : g.Storable) (h : g.save files path = .ok files') :
    ∃ g', load files' path = .ok g' ∧ g'.Storable ∧ g'.quiet = g.quiet := by
  obtain ⟨content, hwrite, hcontent⟩ := exists_write_of_save h
  have hread := Files.read_of_write hwrite
  by_cases hpath : Path.isText path = true
  · rw [if_pos hpath] at hcontent
    rw [hcontent] at hread
    exact ⟨g.quiet, (load_text_iff hpath _ _).mpr ⟨g.toText, hread, hg.ofText_toText⟩, hg.quiet,
      g.quiet_quiet⟩
  · rw [if_neg hpath] at hcontent
    rw [hcontent] at hread
    exact ⟨g, (load_bytes_iff hpath _ _).mpr ⟨g.toBytes, hread, hg.ofBytes_toBytes⟩, hg, rfl⟩

end Graph

/-! ## Settings -/

theorem Settings.load_eq_ok_iff (files : Files) (path : String) (s : Settings) :
    load files path = .ok s ↔
      ∃ text : String, files.read path = .ok text.toUTF8.data.toList ∧ ofText text = .ok s := by
  unfold load
  simp only [← Files.readText_eq_ok_iff]
  cases files.readText path with
  | error e => simp
  | ok text => simp

/-- Settings are the same as before a graph was saved somewhere else. -/
theorem Settings.load_of_save_iff {files files' : Files} {path other : String} {g : Graph}
    (h : g.save files path = .ok files') (hother : files.locate other ≠ files.locate path)
    (s : Settings) : load files' other = .ok s ↔ load files other = .ok s := by
  obtain ⟨content, hwrite, _⟩ := Graph.exists_write_of_save h
  simp only [load_eq_ok_iff, Files.read_other_iff hwrite hother]

end NoiseShader
