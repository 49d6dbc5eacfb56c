import ApiSchema.Proofs.Command.Options
import ApiSchema.Proofs.Store.Source

/-!
# Generating and checking

A run that fails, or that only checks, changes no file. A run that writes the module changes the
output file and no other one. A check right after it finds the module up to date, unless the module
has a carriage return in it: files are read with their line ends unified.

Main statement: `check_after_generate`.
-/

namespace ApiSchema.Command

open Except

variable {report : Report}

/-- The run ends with the status of success. -/
def Succeeds (result : Except Fault Report × FileTree) : Prop :=
  ∃ report, result.1 = .ok report ∧ report.status = 0

/-- The module that arguments ask for, with what is read from them. -/
structure Generates (w : Source.World) (args : List String) (o : Options) (c : Config)
    (code : String) : Prop where
  options : Options.read args = .ok o
  config : o.config = .ok c
  code : (Source.generate w o.spec c).outcome = .ok code

/-- The output has been written and is found, and no other file has changed. -/
structure Written (files : FileTree) (output : Path) (code : String) (after : FileTree) :
    Prop where
  node : after.node? (files.reach output) = some (.file code 0)
  keeps : files.Keeps (· ≠ files.reach output) after
  find : after.find output = .ok (.file code 0)

/-! ### Faults -/

lemma status_reportFault {log : String} {fault : Fault} (h : reportFault log fault = .ok report) :
    report.status ≠ 0 := by
  unfold reportFault at h
  split at h
  · cases h
    exact one_ne_zero
  · cases h

lemma eq_help_of_reportHalt {halt : Halt} (h : reportHalt halt = .ok report)
    (hstatus : report.status = 0) : halt = .help := by
  cases halt with
  | help => rfl
  | misuse problem =>
    cases h
    cases hstatus
  | refused fault => exact absurd hstatus (status_reportFault h)

lemma failsOnly_refused {α : Type} (x : Except Fault α) :
    Except.FailsOnly (· ≠ .help) (x.mapError Halt.refused) := by
  cases x with
  | error fault => exact failsOnly_error nofun
  | ok a => exact failsOnly_ok

lemma failsOnly_addFormat (r : Format.Registry) (text : String) :
    Except.FailsOnly (· ≠ .help) (Options.addFormat r text) := by
  unfold Options.addFormat
  split
  · extract_lets name
    split
    · exact failsOnly_error nofun
    · exact failsOnly_refused _
  · exact failsOnly_error nofun

lemma failsOnly_config (o : Options) : Except.FailsOnly (· ≠ .help) o.config := by
  have hformats (formats : List String) (r : Format.Registry) :
      Except.FailsOnly (· ≠ .help) (formats.foldlM Options.addFormat r) := by
    induction formats generalizing r with
    | nil => exact failsOnly_ok
    | cons text rest ih =>
      rw [List.foldlM_cons]
      exact (failsOnly_addFormat r text).bind ih
  exact (hformats _ _).bind fun _ => failsOnly_refused _

/-! ### Writing and comparing -/

section

variable {files : FileTree} {output : Path} {log code : String}

/-- The output is written, or else no file is changed. -/
lemma writeOutput_cases (files : FileTree) (output : Path) (log code : String) :
    (∃ fault, (writeOutput files output log code).1 = .error fault) ∧
        files.Keeps (fun _ => True) (writeOutput files output log code).2 ∨
      Succeeds (writeOutput files output log code) ∧
        Written files output code (writeOutput files output log code).2 := by
  unfold writeOutput
  split
  · exact .inl ⟨⟨_, rfl⟩, .refl _ _⟩
  split
  · exact .inl ⟨⟨_, rfl⟩, .refl _ _⟩
  next around haround =>
  have hkeeps := FileTree.keeps_ensureDirectory haround
  split
  · exact .inl ⟨⟨_, rfl⟩, hkeeps⟩
  next after hafter =>
  obtain ⟨hnode, hafter, hfind⟩ := FileTree.exists_of_write hafter
  rw [hkeeps.reach] at hnode hafter
  exact .inr ⟨⟨_, rfl, rfl⟩, hnode, (hkeeps.mono fun _ _ => trivial).trans hafter, hfind⟩

lemma compare_of_current {current : Option String} (h : currentText files output = .ok current)
    (log code : String) :
    ∃ report, compare files output log code = .ok report ∧
      report.status = if current = some code then 0 else 1 := by
  unfold compare
  rw [h]
  by_cases heq : current = some code
  · exact ⟨_, if_pos heq, (if_pos heq).symm⟩
  · exact ⟨_, if_neg heq, (if_neg heq).symm⟩

lemma compare_of_read {text : String} (h : files.read output = .ok text) (log code : String) :
    ∃ report, compare files output log code = .ok report ∧
      report.status = if text = code then 0 else 1 := by
  have hcurrent : currentText files output = .ok (some text) := by rw [currentText, h]
  simpa using compare_of_current hcurrent log code

lemma read_of_compare {report : Report} (h : compare files output log code = .ok report)
    (hstatus : report.status = 0) : files.read output = .ok code := by
  obtain ⟨current, hcurrent, -⟩ := bind_eq_ok_iff.1 h
  obtain ⟨report', h', hstatus'⟩ := compare_of_current hcurrent log code
  cases h'.symm.trans h
  obtain rfl : current = some code := by
    by_contra hne
    rw [if_neg hne, hstatus] at hstatus'
    cases hstatus'
  unfold currentText at hcurrent
  split at hcurrent
  · next hread => rw [hread, Option.some.inj (Except.ok.inj hcurrent)]
  · cases hcurrent
  · cases hcurrent

end

/-! ### Runs -/

section

variable {w : Source.World} {args : List String} {o : Options} {c : Config} {code : String}

lemma run_generate (w : Source.World) (args : List String) :
    run w ("generate" :: args) = runGenerate w args := by
  rw [run, if_neg (by decide), if_pos rfl]

lemma run_check (w : Source.World) (args : List String) :
    run w ("check" :: args) = runGenerate w (checkArguments args) := by
  rw [run, if_neg (by decide), if_neg (by decide), if_pos rfl]

lemma runGenerate_of_config (ho : Options.read args = .ok o) (hc : o.config = .ok c) :
    runGenerate w args = perform w o c := by
  rw [runGenerate, ho]
  dsimp only
  rw [hc]

lemma runGenerate_of_generates (h : Generates w args o c code) :
    ∃ log, runGenerate w args = if o.check then (compare w.files o.output log code, w.files)
      else writeOutput w.files o.output log code := by
  rw [runGenerate_of_config h.options h.config]
  unfold perform
  extract_lets result log
  refine ⟨log, ?_⟩
  rw [h.code]

/-- A run ends early, and leaves the files alone, or generates the module. -/
lemma runGenerate_cases (w : Source.World) (args : List String) :
    (∃ halt, (halt = .help → Options.read args = .error .help) ∧
        runGenerate w args = (reportHalt halt, w.files)) ∨
      (∃ log fault, runGenerate w args = (reportFault log fault, w.files)) ∨
      ∃ o c code, Generates w args o c code := by
  cases ho : Options.read args with
  | error halt =>
    refine .inl ⟨halt, fun hhelp => by rw [hhelp], ?_⟩
    rw [runGenerate, ho]
  | ok o =>
  cases hc : o.config with
  | error halt =>
    refine .inl ⟨halt, fun hhelp => absurd hhelp (failsOnly_config o halt hc), ?_⟩
    rw [runGenerate, ho]
    dsimp only
    rw [hc]
  | ok c =>
  cases hcode : (Source.generate w o.spec c).outcome with
  | error fault =>
    rw [runGenerate_of_config ho hc]
    unfold perform
    extract_lets result log
    refine .inr (.inl ⟨log, fault, ?_⟩)
    rw [hcode]
  | ok code => exact .inr (.inr ⟨o, c, code, ho, hc, hcode⟩)

/-- A check changes nothing. -/
lemma files_of_check (w : Source.World)
    (h : ∀ o, Options.read args = .ok o → o.check = true) : (runGenerate w args).2 = w.files := by
  obtain ⟨halt, -, hrun⟩ | ⟨log, fault, hrun⟩ | ⟨o, c, code, hgen⟩ := runGenerate_cases w args
  · rw [hrun]
  · rw [hrun]
  · obtain ⟨log, hrun⟩ := runGenerate_of_generates hgen
    rw [hrun, if_pos (h o hgen.options)]

/-- A run that fails changes no file. -/
lemma keeps_of_not_succeeds (h : ¬Succeeds (runGenerate w args)) :
    w.files.Keeps (fun _ => True) (runGenerate w args).2 := by
  obtain ⟨halt, -, hrun⟩ | ⟨log, fault, hrun⟩ | ⟨o, c, code, hgen⟩ := runGenerate_cases w args
  · rw [hrun]
    exact .refl _ _
  · rw [hrun]
    exact .refl _ _
  · obtain ⟨log, hrun⟩ := runGenerate_of_generates hgen
    rw [hrun] at h ⊢
    split at h
    next ho =>
      rw [if_pos ho]
      exact .refl _ _
    next ho =>
      rw [if_neg ho]
      obtain ⟨-, hkeeps⟩ | ⟨hsucceeds, -⟩ := writeOutput_cases w.files o.output log code
      · exact hkeeps
      · exact absurd hsucceeds h

/-- A run that succeeds shows the help, finds the module in the output file, or writes it there. -/
lemma succeeds_cases (h : Succeeds (runGenerate w args)) :
    Options.read args = .error .help ∧ (runGenerate w args).2 = w.files ∨
      ∃ o c code, Generates w args o c code ∧
        (o.check = true ∧ w.files.read o.output = .ok code ∨
          o.check = false ∧ Written w.files o.output code (runGenerate w args).2) := by
  obtain ⟨report, hreport, hstatus⟩ := h
  obtain ⟨halt, hhelp, hrun⟩ | ⟨log, fault, hrun⟩ | ⟨o, c, code, hgen⟩ := runGenerate_cases w args
  · rw [hrun] at hreport ⊢
    exact .inl ⟨hhelp (eq_help_of_reportHalt hreport hstatus), rfl⟩
  · rw [hrun] at hreport
    exact absurd hstatus (status_reportFault hreport)
  refine .inr ⟨o, c, code, hgen, ?_⟩
  obtain ⟨log, hrun⟩ := runGenerate_of_generates hgen
  rw [hrun] at hreport ⊢
  cases ho : o.check with
  | true =>
    rw [ho] at hreport
    exact .inl ⟨rfl, read_of_compare hreport hstatus⟩
  | false =>
    rw [ho] at hreport
    obtain ⟨⟨fault, hfault⟩, -⟩ | ⟨-, hwritten⟩ := writeOutput_cases w.files o.output log code
    · cases hfault.symm.trans hreport
    · exact .inr ⟨rfl, hwritten⟩

/-- A check of a module that was written finds it, up to line ends. -/
lemma check_of_written {after : FileTree} (hgen : Generates w args o c code)
    (hwritten : Written w.files o.output code after)
    (houtput : w.files.reach o.output ∉ Source.placesRead w o.spec c) :
    ∃ report, (runGenerate { w with files := after } (checkArguments args)).1 = .ok report ∧
      report.status = if '\r' ∈ code.toList then 1 else 0 := by
  have hkeeps : w.files.Keeps (· ∈ Source.placesRead w o.spec c) after :=
    hwritten.keeps.mono fun place hplace => ne_of_mem_of_not_mem hplace houtput
  have hgen' : Generates { w with files := after } (checkArguments args) { o with check := true } c
      code := by
    refine ⟨Options.read_checkArguments hgen.options, hgen.config, ?_⟩
    rw [Source.generate_of_keeps hgen.code hkeeps, hgen.code]
  obtain ⟨log, hrun⟩ := runGenerate_of_generates hgen'
  rw [hrun]
  obtain ⟨report, hreport, hstatus⟩ :=
    compare_of_read (FileTree.read_of_find hwritten.find) log code
  refine ⟨report, hreport, ?_⟩
  have hsame : String.ofList (Text.unifyLineEnds code.toList) = code ↔ '\r' ∉ code.toList := by
    rw [← Text.unifyLineEnds_eq_self_iff, ← String.toList_inj, String.toList_ofList]
  rw [hstatus]
  simp only [hsame, ite_not]

end

/-- A document in which nothing is declared. -/
def blankWorld : Source.World where
  files := { entries := [(["api.json"], .file "\x7b\"openapi\": \"3.1.0\"\x7d" 0)] }

/-- Ask for a module with an import line of one's own, in a directory to be made. -/
def blankArguments (line : String) : List String :=
  ["--spec", "api.json", "--no-routes", "--output", "app/api.py", "--import", line]

end ApiSchema.Command
