import Mathlib.Data.List.Forall2
import YamlLayout.CommandLine.Execution
import YamlLayout.CommandLine.FileTable
import YamlLayout.Proofs.Formatter

/-! A run over documents is made of what becomes of each of them alone. One that cannot be read
or formatted leaves a report and no byte of output; it changes nothing for the others. -/
namespace YamlLayout.CommandLine

/-- What becomes of a document: it cannot be read, or it fails, or it is formatted. -/
inductive Becomes (f : Formatter) : Except Error Bytes → Except Error Bytes → Prop where
  | unreadable (e : Error) : Becomes f (.error e) (.error e)
  | failed {content : Bytes} {e : Error} (h : (f.format content).outcome = .failed e) :
    Becomes f (.ok content) (.error e)
  | formatted {content output : Bytes} (h : (f.format content).outcome = .done output) :
    Becomes f (.ok content) (.ok output)

def report? (name : String) : Except Error Bytes → Option Report
  | .ok _ => none
  | .error e => some ⟨some name, e⟩

theorem exists_becomes (c : Config) (reformat : Reformat) (content : Except Error Bytes) :
    ∃ r, Becomes (.ofConfig c reformat) content r := by
  cases content with
  | error e => exact ⟨_, .unreadable e⟩
  | ok content =>
    cases h : ((Formatter.ofConfig c reformat).format content).outcome with
    | done output => exact ⟨_, .formatted h⟩
    | failed e => exact ⟨_, .failed h⟩
    | breach cause => exact absurd h (Formatter.format_ne_breach c reformat content cause)

theorem becomes_unique (f : Formatter) : Relator.RightUnique (Becomes f) := by
  intro content r r' h h'
  cases h with
  | unreadable e =>
    cases h'
    rfl
  | failed h =>
    cases h' with
    | failed h' => simpa [h] using h'
    | formatted h' => simp [h] at h'
  | formatted h =>
    cases h' with
    | failed h' => simp [h] at h'
    | formatted h' => simpa [h] using h'

theorem exists_forall_becomes (c : Config) (reformat : Reformat)
    (documents : List (String × Except Error Bytes)) :
    ∃ results, List.Forall₂ (fun d r => Becomes (.ofConfig c reformat) d.2 r) documents results := by
  induction documents with
  | nil => exact ⟨[], List.Forall₂.nil⟩
  | cons d documents ih =>
    obtain ⟨r, hr⟩ := exists_becomes c reformat d.2
    obtain ⟨results, hresults⟩ := ih
    exact ⟨r :: results, List.Forall₂.cons hr hresults⟩

/-- The transcript of a run behind a document of which this has become. -/
def Transcript.add (t : Transcript) (name : String) (r : Except Error Bytes) : Transcript :=
  ⟨t.output ++ r.toOption.getD [], t.reports ++ (report? name r).toList, t.allOk && r.isOk⟩

theorem Transcript.add_error (t : Transcript) (name : String) (e : Error) :
    t.add name (.error e) = t.report name e := by
  simp [add, report, report?, Except.toOption, Except.isOk, Except.toBool]

theorem Transcript.add_ok (t : Transcript) (name : String) (output : Bytes) :
    t.add name (.ok output) = { t with output := t.output ++ output } := by
  simp [add, report?, Except.toOption, Except.isOk, Except.toBool]

section formatAll
variable {c : Config} {reformat : Reformat}

theorem formatDocument_of_becomes {content : Bytes} {r : Except Error Bytes}
    (h : Becomes (.ofConfig c reformat) (.ok content) r) (name : String) (t : Transcript) :
    formatDocument c reformat name content t = t.add name r := by
  unfold formatDocument
  cases h with
  | failed h =>
    rw [t.add_error]
    split
    · next ho => simp [h] at ho
    · next he => rw [Outcome.failed.inj (h.symm.trans he)]
    · next hb => simp [h] at hb
  | formatted h =>
    rw [t.add_ok]
    split
    · next ho => rw [Outcome.done.inj (h.symm.trans ho)]
    · next he => simp [h] at he
    · next hb => simp [h] at hb

theorem formatAll_cons {content r : Except Error Bytes}
    (h : Becomes (.ofConfig c reformat) content r) (name : String) (t : Transcript)
    (rest : List (String × Except Error Bytes)) :
    formatAll c reformat t ((name, content) :: rest) =
      formatAll c reformat (t.add name r) rest := by
  cases content with
  | error e =>
    cases h
    rw [formatAll, t.add_error]
  | ok content => rw [formatAll, formatDocument_of_becomes h]

theorem formatAll_of_becomes {documents : List (String × Except Error Bytes)}
    {results : List (Except Error Bytes)}
    (h : List.Forall₂ (fun d r => Becomes (.ofConfig c reformat) d.2 r) documents results)
    (t : Transcript) :
    formatAll c reformat t documents = ⟨t.output ++ (results.filterMap Except.toOption).flatten,
      t.reports ++ (documents.zip results).filterMap (fun (d, r) => report? d.1 r),
      t.allOk && results.all Except.isOk⟩ := by
  -- for any transcript, since each document is written behind those before it
  induction h generalizing t with
  | nil => simp [formatAll]
  | @cons d r documents results hr _ ih =>
    rw [formatAll_cons hr, ih, Transcript.add, List.zip_cons_cons]
    cases r with
    | error e => simp [List.filterMap_cons, Except.toOption, report?, Bool.and_assoc]
    | ok output => simp [Except.toOption, report?, Bool.and_assoc]

theorem formatAll_append (t : Transcript) (ds es : List (String × Except Error Bytes)) :
    formatAll c reformat t (ds ++ es) = formatAll c reformat (formatAll c reformat t ds) es := by
  induction t, ds using formatAll.induct c reformat with
  | case1 t => rw [List.nil_append, formatAll]
  | case2 t name e ds ih => rw [List.cons_append, formatAll, formatAll, ih]
  | case3 t name content ds ih => rw [List.cons_append, formatAll, formatAll, ih]

end formatAll

theorem documents_eq (a : Arguments) (read : Read) (stdin : Bytes) : a.documents read stdin =
    if a.files = [] then [("<stdin>", .ok stdin)]
    else a.files.map fun path => (path, read path) := by
  cases hf : a.files <;> simp [Arguments.documents, stdinName, hf]

theorem resolve_files (a : Arguments) (files : List String) (read : Read) :
    { a with files := files }.resolve read = a.resolve read := rfl

section run
variable {a : Arguments} {read : Read} {c : Config} (h : a.resolve read = .ok c)
include h

theorem run_of_resolve (yaml : Reformat) (stdin : Bytes) :
    let last := formatAll c (if a.noReformat then .passthrough else yaml) {}
      (a.documents read stdin)
    run yaml read stdin a = ⟨if last.allOk then 0 else 2, last.output, last.reports⟩ := by
  simp [run, h]

theorem run_append (yaml : Reformat) (stdin : Bytes) {fs gs : List String} (hf : fs ≠ [])
    (hg : gs ≠ []) :
    let alone (files : List String) := run yaml read stdin { a with files := files }
    (alone (fs ++ gs)).output = (alone fs).output ++ (alone gs).output ∧
      (alone (fs ++ gs)).reports = (alone fs).reports ++ (alone gs).reports := by
  intro alone
  have hdocs : { a with files := fs ++ gs }.documents read stdin =
      { a with files := fs }.documents read stdin ++
        { a with files := gs }.documents read stdin := by
    simp [documents_eq, hf, hg]
  have hrun (files : List String) := run_of_resolve (a := { a with files := files })
    ((resolve_files a files read).trans h) yaml stdin
  obtain ⟨results, hresults⟩ := exists_forall_becomes c
    (if a.noReformat then .passthrough else yaml) ({ a with files := gs }.documents read stdin)
  simp only [alone, hrun, hdocs, formatAll_append, formatAll_of_becomes hresults, List.nil_append,
    and_self]

end run

/-- Where the settings do not resolve, a run ends before any document. Otherwise its output is
what became of the documents, in their order, and each document of which nothing became has its
one report; the status tells whether there is such a document. -/
theorem documents_isolated (yaml : Reformat) (read : Read) (stdin : Bytes) (a : Arguments) :
    (∀ words, parse words = .ok a → execute yaml read stdin words = run yaml read stdin a) ∧
    (∀ e, a.resolve read = .error e → run yaml read stdin a = ⟨2, [], [⟨none, e⟩]⟩) ∧
    (∀ c, a.resolve read = .ok c →
      let f := Formatter.ofConfig c (if a.noReformat then .passthrough else yaml)
      let documents := if a.files = [] then [("<stdin>", .ok stdin)]
        else a.files.map fun path => (path, read path)
      let whole := run yaml read stdin a
      ∃ results, List.Forall₂ (fun d r => Becomes f d.2 r) documents results ∧
        whole.output = (results.filterMap Except.toOption).flatten ∧
        whole.reports = (documents.zip results).filterMap (fun (d, r) => report? d.1 r) ∧
        whole.status = if results.all Except.isOk then 0 else 2) ∧
    (∀ c, a.resolve read = .ok c → ∀ fs gs : List String, fs ≠ [] → gs ≠ [] →
      let alone (files : List String) := run yaml read stdin { a with files := files }
      (alone (fs ++ gs)).output = (alone fs).output ++ (alone gs).output ∧
        (alone (fs ++ gs)).reports = (alone fs).reports ++ (alone gs).reports) := by
  refine ⟨fun words hw => ?_, fun e he => ?_, fun c hc => ?_, fun c hc fs gs hf hg =>
    run_append hc yaml stdin hf hg⟩
  · rw [execute, hw]
  · rw [run, he]
  · intro f documents
    obtain ⟨results, hresults⟩ := exists_forall_becomes c
      (if a.noReformat then .passthrough else yaml) documents
    have hall := formatAll_of_becomes hresults {}
    have hrun := run_of_resolve hc yaml stdin
    simp only [documents_eq] at hrun
    refine ⟨results, hresults, ?_, ?_, ?_⟩
    · rw [hrun, hall]
      rfl
    · rw [hrun, hall]
      rfl
    · rw [hrun, hall]
      rfl

/-- One file that is not there, one with a broken escape, and a good one behind both; with a
configuration that is not there, the good one alone. -/
theorem documents_isolated_broken :
    let read := FileTable.read [("bad.yaml", .file (Utf8.ofString "a: \\q")),
      ("good.yaml", .file (Utf8.ofString "b\n"))]
    let words := ["--no-reformat", "--parse-unicode", "--line-ending", "crlf",
      "none.yaml", "bad.yaml", "good.yaml"]
    execute .passthrough read [] words = ⟨2, Utf8.ofString "b\r\n",
      [⟨some "none.yaml", FileTable.notFound⟩,
        ⟨some "bad.yaml",
          .featureApply "Parse Unicode Points" .after (.invalidCodePointSequence 4)⟩]⟩ ∧
    execute .passthrough read [] ["-c", "none.toml", "good.yaml"] =
      ⟨2, [], [⟨none, FileTable.notFound⟩]⟩ := by
  intro read words
  constructor
  · let a : Arguments := {
      files := ["none.yaml", "bad.yaml", "good.yaml"]
      lineEnding := some .crlf
      parseUnicode := true
      noReformat := true }
    let f := Formatter.ofConfig { lineEnding := .crlf, parseUnicode := true } .passthrough
    obtain ⟨hrun, -, hwhole, -⟩ := documents_isolated .passthrough read [] a
    obtain ⟨results, hresults, houtput, hreports, hstatus⟩ := hwhole _ rfl
    have hnone : Becomes f (read "none.yaml") (.error FileTable.notFound) := by
      have hread : read "none.yaml" = .error FileTable.notFound := by decide +kernel
      rw [hread]
      exact .unreadable _
    have hbad : Becomes f (read "bad.yaml")
        (.error (.featureApply "Parse Unicode Points" .after (.invalidCodePointSequence 4))) := by
      have hread : read "bad.yaml" = .ok (Utf8.ofString "a: \\q") := by decide +kernel
      rw [hread]
      exact .failed (by decide +kernel)
    have hgood : Becomes f (read "good.yaml") (.ok (Utf8.ofString "b\r\n")) := by
      have hread : read "good.yaml" = .ok (Utf8.ofString "b\n") := by decide +kernel
      rw [hread]
      exact .formatted (by decide +kernel)
    obtain rfl : results = [_, _, _] :=
      List.right_unique_forall₂' (fun d => @becomes_unique f d.2) hresults
        (.cons hnone (.cons hbad (.cons hgood .nil)))
    let whole := run .passthrough read [] a
    calc execute .passthrough read [] words
      _ = ⟨whole.status, whole.output, whole.reports⟩ := hrun words (by decide +kernel)
      _ = _ := by
        rw [hstatus, houtput, hreports]
        decide +kernel
  · let a : Arguments := { files := ["good.yaml"], configPath := some "none.toml" }
    obtain ⟨hrun, hfault, -, -⟩ := documents_isolated .passthrough read [] a
    rw [hrun _ (by decide +kernel)]
    exact hfault _ (by decide +kernel)

end YamlLayout.CommandLine
