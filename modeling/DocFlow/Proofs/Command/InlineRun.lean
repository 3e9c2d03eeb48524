import Mathlib.Data.List.Basic
import DocFlow.Command.Run
import DocFlow.Proofs.Inline.Interleaving
import DocFlow.Proofs.Inline.TypeComment
import DocFlow.Proofs.Source.Directory

namespace DocFlow

namespace Source

theorem carriageReturn_notMem_unifyBreaks (t : Text) : '\r' ∉ unifyBreaks t := by
  fun_induction unifyBreaks t with
  | case1 => exact List.not_mem_nil
  | case2 rest ih => simpa using ih
  | case3 rest _ ih => simpa using ih
  | case4 c rest _ hc ih =>
    have hne : '\r' ≠ c := Ne.symm hc
    simpa [hne] using ih

theorem unifyBreaks_of_notMem {t : Text} (h : '\r' ∉ t) : unifyBreaks t = t := by
  fun_induction unifyBreaks t with
  | case1 => rfl
  | case2 rest => exact absurd List.mem_cons_self h
  | case3 rest => exact absurd List.mem_cons_self h
  | case4 c rest _ _ ih => rw [ih fun hmem => h (List.mem_cons_of_mem c hmem)]

theorem unifyBreaks_eq_self_iff {t : Text} : unifyBreaks t = t ↔ '\r' ∉ t := by
  refine ⟨fun h => ?_, unifyBreaks_of_notMem⟩
  rw [← h]
  exact carriageReturn_notMem_unifyBreaks t

end Source

theorem Encoding.encode?_inj {e : Encoding} {s t : Text} {bytes : List UInt8}
    (hs : encode? e s = some bytes) (ht : encode? e t = some bytes) : s = t := by
  have hdecode := decode_of_encode? hs
  rw [decode_of_encode? ht] at hdecode
  exact (Except.ok.inj hdecode).symm

namespace Document

/-- A source in UTF-8 has a document, if its language is known. -/
theorem exists_ofSource_utf8 {s : Source} (supported : isSupported s.language = true)
    (utf8 : s.encoding = "utf-8".toList) (parser : TreeParser) :
    ∃ doc, ofSource s parser = .ok doc ∧ doc.source = s ∧ doc.encoding = .utf8 := by
  obtain ⟨bytes, hbytes⟩ := Encoding.exists_encode?_utf8 s.content
  have hname : Encoding.ofName? s.encoding = some .utf8 := by
    rw [utf8]
    decide
  have hcovers : Encoding.covers .utf8 s.content = true := by
    rw [Encoding.covers, hbytes]
    rfl
  rw [ofSource, supported, hname]
  dsimp only
  rw [hcovers]
  exact ⟨_, rfl, rfl, rfl⟩

/-- A document without documented functions is left as it is. -/
theorem annotate_of_no_functions {doc : Document} (utf8 : doc.encoding = .utf8)
    (h : doc.functions = .ok []) : doc.annotate = .ok doc.source.content := by
  have hnone : Annotations.ofDocument doc = .ok {} :=
    Annotations.ofDocument_eq_ok_iff.2 ⟨[], h, rfl⟩
  refine bind_eq_ok.2 ⟨_, hnone, ?_⟩
  have hread : doc.withInsertions [] = .ok (Insertion.interleave (Insertion.textAt []) 0 doc.source.content) :=
    withInsertions_of_utf8 utf8 nofun
  rwa [Insertion.interleave_nil] at hread

end Document

namespace Command

/-- An invocation that rewrites a file with a text in UTF-8 into another one, which can be written.
The language is given, or follows from the extension. -/
structure RewritesFile (d : Directory) (i : Invocation) (t : Text) (bytes : Bytes)
    (language output : Text) : Prop where
  isInline : i.isInline = true
  fromFile : i.path ≠ standardInput
  stored : d.read (Path.ofText i.path) = .ok bytes
  utf8 : Encoding.utf8.encode? t = some bytes
  inLanguage : (i.language <|> Source.languageOf? (Path.ofText i.path)) = some language
  supported : isSupported language = true
  toFile : i.output = some output
  writable : ∃ d', d.write (Path.ofText output) [] = .ok d'

def fileSource (i : Invocation) (language t : Text) : Source :=
  ⟨Source.unifyBreaks t, (Path.ofText i.path).toText, language, "utf-8".toList⟩

namespace RewritesFile

variable {d : Directory} {i : Invocation} {t language output : Text} {bytes : Bytes}
  {parser : TreeParser}

theorem sourceOf_eq (h : RewritesFile d i t bytes language output)
    (settings : Conversion.SettingsResult) :
    sourceOf settings i (.ok bytes) = .ok (fileSource i language t) := by
  have hname : Encoding.ofName? "utf-8".toList = some .utf8 := by decide
  have hread : Source.readText "utf-8".toList bytes = .ok (Source.unifyBreaks t) := by
    rw [Source.readText, hname]
    dsimp only
    rw [Encoding.decode_of_encode? h.utf8]
  rw [sourceOf, if_neg h.fromFile]
  refine bind_eq_ok.2 ⟨_, hread, ?_⟩
  rw [h.inLanguage]
  rfl

theorem result_eq (h : RewritesFile d i t bytes language output)
    (settings : Conversion.SettingsResult) {doc : Document}
    (hdoc : Document.ofSource (fileSource i language t) parser = .ok doc) :
    result parser settings i (.ok bytes) = doc.annotate := by
  rw [result, h.sourceOf_eq, h.isInline]
  change (Document.ofSource (fileSource i language t) parser >>= Document.annotate) = _
  rw [hdoc]
  rfl

variable (h : RewritesFile d i t bytes language output) {env : List (Text × Text)}
  {args : List Text} {input : Bytes} {doc : Document} (asked : request args = .run i)
  (hdoc : Document.ofSource (fileSource i language t) parser = .ok doc)
include h asked hdoc

/-- A conversion that fails leaves the directory as it is. -/
theorem directory_of_error {e : Error} (he : doc.annotate = .error e) :
    (run env args input d parser).directory = d := by
  rw [run, asked]
  dsimp only
  rw [if_neg h.fromFile, h.stored, answer, h.result_eq _ hdoc, he]
  dsimp only
  split
  · cases line (failureMessage e) <;> rfl
  · rfl

theorem read_of_ok {out : Text} {written : Bytes} (hout : doc.annotate = .ok out)
    (hwritten : Encoding.utf8.encode? out = some written) :
    (run env args input d parser).directory.read (Path.ofText output) = .ok written := by
  obtain ⟨d₀, hd₀⟩ := h.writable
  obtain ⟨d', hd'⟩ := Directory.exists_write hd₀ written
  have hrun : (run env args input d parser).directory = d' := by
    rw [run, asked]
    dsimp only
    rw [if_neg h.fromFile, h.stored, answer, h.result_eq _ hdoc, hout]
    dsimp only
    rw [h.toFile]
    dsimp only
    rw [hwritten, Answer.carryOut, hd']
    dsimp only
    cases line (successMessage (Path.ofText output)) <;> rfl
  rw [hrun]
  exact Directory.read_of_write hd'

end RewritesFile

/-- Whatever tree the parser gives, a process that rewrites a file writes the text of the file with
line feeds for all of its line breaks, and nothing but type comments put in; where that fails, it
writes nothing. So a file without documented functions is written byte for byte iff it has no
carriage return. A process whose settings are not valid never gets that far. -/
theorem launch_inserts_type_comments {d : Directory} {i : Invocation} {t language output : Text}
    {bytes : Bytes} (h : RewritesFile d i t bytes language output) {args : List Text}
    (asked : request args = .run i) (parser : TreeParser) (env : List (Text × Text))
    (input : Bytes) :
    ∃ doc, Document.ofSource (fileSource i language t) parser = .ok doc ∧
      doc.source.content = Source.unifyBreaks t ∧ (Source.unifyBreaks t = t ↔ '\r' ∉ t) ∧
      (∀ fault, Settings.atStart env = .error fault →
        launch env args input d parser = .error fault) ∧
      ∀ settings, Settings.atStart env = .ok settings →
        ∃ outcome, launch env args input d parser = .ok outcome ∧
          (∀ e, doc.annotate = .error e → outcome.directory = d) ∧
          (∀ out, doc.annotate = .ok out → doc.InsertsTypeComments out ∧
            ∃ written, Encoding.utf8.encode? out = some written ∧
              outcome.directory.read (Path.ofText output) = .ok written) ∧
          (doc.functions = .ok [] →
            ∃ written, Encoding.utf8.encode? (Source.unifyBreaks t) = some written ∧
              outcome.directory.read (Path.ofText output) = .ok written ∧
              (written = bytes ↔ '\r' ∉ t)) := by
  obtain ⟨doc, hdoc, hsource, hencoding⟩ :=
    Document.exists_ofSource_utf8 (s := fileSource i language t) h.supported rfl parser
  have hcontent : doc.source.content = Source.unifyBreaks t := by
    rw [hsource]
    rfl
  refine ⟨doc, hdoc, hcontent, Source.unifyBreaks_eq_self_iff, fun fault hfault => ?_,
    fun settings hstart => ⟨run env args input d parser, ?_, fun e => h.directory_of_error asked hdoc,
      fun out hout => ?_, fun hnone => ?_⟩⟩
  · rw [launch, hfault]
    rfl
  · rw [launch, hstart]
    rfl
  · obtain ⟨written, hwritten⟩ := Encoding.exists_encode?_utf8 out
    exact ⟨Document.insertsTypeComments_of_annotate hout, written, hwritten,
      h.read_of_ok asked hdoc hout hwritten⟩
  · obtain ⟨written, hwritten⟩ := Encoding.exists_encode?_utf8 (Source.unifyBreaks t)
    have hout := Document.annotate_of_no_functions hencoding hnone
    rw [hcontent] at hout
    refine ⟨written, hwritten, h.read_of_ok asked hdoc hout hwritten, ?_⟩
    rw [← Source.unifyBreaks_eq_self_iff]
    constructor
    · rintro rfl
      exact Encoding.encode?_inj hwritten h.utf8
    · intro hsame
      rw [hsame, h.utf8] at hwritten
      exact (Option.some.inj hwritten).symm

/-- A byte order mark is kept. -/
theorem launch_keeps_byte_order_mark :
    ∃ outcome, launch [] ["f.js".toList, "--inline".toList, "-o".toList, "g.js".toList] []
        ⟨[(["f.js".toList], [0xEF, 0xBB, 0xBF, 0x61, 0x3B, 0x0A])]⟩ = .ok outcome ∧
      outcome.directory.read (Path.ofText "g.js".toList) =
        .ok [0xEF, 0xBB, 0xBF, 0x61, 0x3B, 0x0A] := by
  have rewrites : RewritesFile ⟨[(["f.js".toList], [0xEF, 0xBB, 0xBF, 0x61, 0x3B, 0x0A])]⟩
      ⟨"f.js".toList, true, some "g.js".toList, none⟩ "\uFEFFa;\n".toList
      [0xEF, 0xBB, 0xBF, 0x61, 0x3B, 0x0A] "javascript".toList "g.js".toList :=
    ⟨rfl, by decide, by rfl, by decide, by decide, by decide, rfl, ⟨_, by rfl⟩⟩
  have asked : request ["f.js".toList, "--inline".toList, "-o".toList, "g.js".toList] =
      .run ⟨"f.js".toList, true, some "g.js".toList, none⟩ := by decide
  obtain ⟨doc, hdoc, -, -, -, started⟩ :=
    launch_inserts_type_comments rewrites asked scriptParser [] []
  have defaults : (Settings.atStart []).toOption = some {} := by decide +kernel
  obtain ⟨outcome, hlaunch, -, -, hplain⟩ := started {} (eq_ok_of_toOption defaults)
  have hnone : ((Document.ofSource (fileSource ⟨"f.js".toList, true, some "g.js".toList, none⟩
      "javascript".toList "\uFEFFa;\n".toList)) >>= fun doc =>
        doc.functions.map List.length).toOption = some 0 := by
    decide +kernel
  obtain ⟨doc', hdoc', h⟩ := bind_eq_ok.1 (eq_ok_of_toOption hnone)
  obtain ⟨fs, hfs, hlength⟩ := map_eq_ok.1 h
  obtain rfl := Except.ok.inj (hdoc'.symm.trans hdoc)
  rw [List.length_eq_zero_iff.1 hlength] at hfs
  obtain ⟨written, -, hread, hsame⟩ := hplain hfs
  rw [hsame.2 (by decide)] at hread
  exact ⟨outcome, hlaunch, hread⟩

/-- A carriage return is lost, also where no function is documented. -/
theorem launch_loses_carriage_return :
    ((Document.ofSource (fileSource ⟨"f.js".toList, true, some "g.js".toList, none⟩
      "javascript".toList "a;\r\n".toList)) >>= fun doc =>
        doc.functions.map List.length).toOption = some 0 ∧
    ((launch [] ["f.js".toList, "--inline".toList, "-o".toList, "g.js".toList] []
      ⟨[(["f.js".toList], [0x61, 0x3B, 0x0D, 0x0A])]⟩).map (·.directory.files)).toOption =
        some [(["f.js".toList], [0x61, 0x3B, 0x0D, 0x0A]), (["g.js".toList], [0x61, 0x3B, 0x0A])] := by
  decide +kernel

end Command

end DocFlow
