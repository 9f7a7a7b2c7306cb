import TreePanel.Proofs.Files
import TreePanel.Proofs.Settings.Reader

/-!
# Settings that were saved

Saved settings are loaded again. Their file has a line for each field, and the lines are independent
of each other: what a file of some of them says, in whatever order, is what each of its lines says.
-/

namespace TreePanel.Settings

open Yaml

/-- Settings are loaded from the text of a file. -/
theorem loadFrom_of_readText {files : Files} {path : String} {text : List Char}
    (h : files.readText path = .ok text) :
    loadFrom files path = (ofText text).mapError (.content path) := by
  rw [loadFrom, h]
  rfl

/-- A file of lines of different fields is loaded as the defaults with these fields. -/
theorem loadFrom_linesOf {s : Settings} (hs : s.Storable) {files : Files} {path : String}
    {fields : List Field} (hnonempty : fields ≠ []) (hnodup : fields.Nodup)
    (h : files.readText path = .ok (s.linesOf fields)) :
    loadFrom files path = .ok (({} : Settings).withFields s fields) := by
  obtain ⟨stream, hread⟩ := ofText_lines hnonempty s.formed_entry
  have hdraft : (fields ++ (⟨{}, []⟩ : Draft).given).Nodup := by
    rw [List.append_nil]
    exact hnodup
  have hok : ofText (s.linesOf fields) = .ok (({} : Settings).withFields s fields) := by
    calc ofText (s.linesOf fields)
        = readEntries stream .origin (fields.length + (fields.length + 1) + 1) ⟨{}, []⟩
            (Entry.resolvedFrom .origin (fields.map s.entry)) := hread
      _ = .ok (({} : Settings).withFields s fields) :=
        readEntries_lines stream .origin hs hdraft _ _
  rw [loadFrom_of_readText h, hok]
  rfl

/-- A file of lines that lists a field twice is rejected. If every value would read back, it is
rejected for a field that is listed twice. -/
theorem loadFrom_repeated {lines : List (Settings × Field)} {files : Files} {path : String}
    (hrepeated : ¬(lines.map Prod.snd).Nodup)
    (h : files.readText path = .ok (lines.flatMap fun line => line.1.line line.2)) :
    ∃ misfit, loadFrom files path = .error (.content path (.misfit misfit)) ∧
      ((∀ line ∈ lines, line.1.Storable) →
        ∃ field, 2 ≤ (lines.map Prod.snd).count field ∧
          misfit = ⟨.whole, .origin, .duplicate field⟩) := by
  have hnonempty : lines ≠ [] := by
    rintro rfl
    exact hrepeated List.nodup_nil
  have hformed : ∀ line : Settings × Field, (line.1.entry line.2).Formed := fun line =>
    line.1.formed_entry line.2
  obtain ⟨stream, hread⟩ := ofText_lines hnonempty hformed
  have hgiven : (⟨{}, []⟩ : Draft).given.Nodup := List.nodup_nil
  have hdraft : ¬(lines.map Prod.snd ++ (⟨{}, []⟩ : Draft).given).Nodup := by
    rw [List.append_nil]
    exact hrepeated
  obtain ⟨misfit, hmisfit, hcause⟩ :=
    readEntries_repeated stream .origin hgiven hdraft .origin (lines.length + 1)
  refine ⟨misfit, ?_, ?_⟩
  · rw [loadFrom_of_readText h]
    exact congrArg (Except.mapError _) (hread.trans hmisfit)
  · rwa [List.append_nil] at hcause

/-- Where saving succeeds, the file holds the text of the settings. -/
theorem readText_of_saveTo {s : Settings} {files after : Files} {path : String}
    (h : s.saveTo files path = (.ok (), after)) : after.readText path = .ok s.text := by
  unfold saveTo at h
  dsimp only at h
  split at h
  · cases h
  · split at h
    · cases h
    · next written hwrite =>
      obtain rfl : written = after := (Prod.mk.inj h).2
      rw [Files.readText_of_write (FileTask.of_run hwrite), String.toList_ofList]

/-- Settings whose values read back one by one are loaded from the file that they were saved to. The
lines of such a file, in any order, give the listed fields the saved values and the others their
defaults; a file that lists a field twice is rejected. -/
theorem loadFrom_saved {s : Settings} (hs : s.Storable) :
    (∀ (files after : Files) (path : String), s.saveTo files path = (.ok (), after) →
      loadFrom after path = .ok s) ∧
    (∀ (files : Files) (path : String) (fields : List Field), fields ≠ [] → fields.Nodup →
      files.readText path = .ok (s.linesOf fields) →
      loadFrom files path = .ok (({} : Settings).withFields s fields)) ∧
    (∀ (files : Files) (path : String) (lines : List (Settings × Field)),
      ¬(lines.map Prod.snd).Nodup →
      files.readText path = .ok (lines.flatMap fun line => line.1.line line.2) →
      ∃ misfit, loadFrom files path = .error (.content path (.misfit misfit)) ∧
        ((∀ line ∈ lines, line.1.Storable) →
          ∃ field, 2 ≤ (lines.map Prod.snd).count field ∧
            misfit = ⟨.whole, .origin, .duplicate field⟩)) := by
  refine ⟨fun files after path hsave => ?_, fun files path fields => loadFrom_linesOf hs,
    fun files path lines => loadFrom_repeated⟩
  have hall : Field.all ≠ [] := List.cons_ne_nil _ _
  have hnodup : Field.all.Nodup := by decide
  rw [loadFrom_linesOf hs hall hnodup (readText_of_saveTo hsave), withFields_all]

/-- Settings at the ends of the ranges are saved below folders that are made, and loaded again; two
of their lines leave the other fields at their defaults, and a line after another of its field is
rejected. -/
theorem loadFrom_saved_extremes :
    let s : Settings :=
      ⟨.bottom, Float32.ofBits 0x7fc00000, 2 ^ 64 - 1, Float32.ofBits 1, true, false⟩
    let holding (text : List Char) : Files :=
      Files.empty.put ["panel.yaml"] (.file (String.ofList text).toUTF8)
    loadFrom (s.saveTo .empty "/home/user/panel.yaml").2 "/home/user/panel.yaml" = .ok s ∧
      loadFrom (holding (s.linesOf [.footer, .indentWidth])) "panel.yaml" =
        .ok { footer := false, indentWidth := 2 ^ 64 - 1 } ∧
      ∃ misfit, loadFrom (holding (s.line .dock ++ ({} : Settings).line .dock)) "panel.yaml" =
        .error (.content "panel.yaml" (.misfit misfit)) := by
  intro s holding
  have hs : s.Storable := ⟨by decide +kernel, by decide +kernel, by decide +kernel⟩
  have hholding : ∀ text, (holding text).readText "panel.yaml" = .ok text := by
    intro text
    have hwrite : Files.empty.write "panel.yaml" (String.ofList text).toUTF8 =
        .ok (holding text) := rfl
    rw [Files.readText_of_write hwrite, String.toList_ofList]
  obtain ⟨hsaved, hlines, hrepeated⟩ := loadFrom_saved hs
  refine ⟨?_, ?_, ?_⟩
  · exact hsaved .empty _ _ (Prod.ext (by rfl) rfl)
  · exact hlines _ _ [.footer, .indentWidth] (by decide) (by decide) (hholding _)
  · have htext : (holding (s.line .dock ++ ({} : Settings).line .dock)).readText "panel.yaml" =
        .ok ([(s, .dock), (({} : Settings), .dock)].flatMap fun line => line.1.line line.2) :=
      hholding _
    obtain ⟨misfit, hmisfit, -⟩ := hrepeated _ _ _ (by decide) htext
    exact ⟨misfit, hmisfit⟩

end TreePanel.Settings
