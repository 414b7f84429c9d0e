import CombinatorGrammar.Cli.Report
import CombinatorGrammar.Proofs.Likeness.RaisedLimit
import CombinatorGrammar.Proofs.Lkt.Formatting
import CombinatorGrammar.Proofs.Lkt.Interners
import Mathlib.Logic.Relation

/-!
# Readings that share an interner

All sources that are read with one front end take the names of their texts from one interner, one
after the other or several at a time, and the front end may have been built over an interner that
was in use before. So the names of the grammar depend on what was there first, and the name of a
text depends on what is read besides. What is reported of a source does not: names are compared with
names of the same interner only, and whatever is shown of them is their text.
-/

namespace CombinatorGrammar

namespace Cli

open Lkt (FrontEnd LexedSource)

/-- The report on a source that has been cut into tokens. -/
def reportOn (f : FrontEnd) (options : Options) (path source : String) (lexed : LexedSource) :
    FileReport :=
  let queue := (DiagnosticQueue.empty ⟨options.errorLimit, true⟩).addAll lexed.lexed.diagnostics
  let (outline, queue) := match f.parseLexed lexed options.config with
    | .ok output =>
      (output.root.map (f.program.outlineContext lexed.names).outline,
        queue.addAll output.diagnostics)
    | .error fault => (none, (queue.add (fault.diagnostic lexed.lexed.tokens)).2)
  { path := path
    source := source
    outline := outline
    diagnostics := queue.flush.1
    errors := queue.errorCount
    warnings := queue.warningCount }

/-- Checking a source is reporting on what it is cut into. -/
theorem check_eq_reportOn (f : FrontEnd) (options : Options) (path source : String) :
    check f options path source = reportOn f options path source (f.lex source) := rfl

/-- Readings of one source with one front end are reported alike. -/
theorem reportOn_eq_of_reads {known : Interner} {f : FrontEnd} (made : FrontEnd.over known = .ok f)
    (options : Options) (path : String) {source : String} {s s' : LexedSource}
    (reads : s.Reads source) (reads' : s'.Reads source) (grows : f.names.Grows s.names)
    (grows' : f.names.Grows s'.names) :
    reportOn f options path source s' = reportOn f options path source s := by
  have tokens := reads.like reads'
  have sessions := Lkt.session_like made grows grows' tokens
    (fun first second => congrArg₂ Span.merge first second)
    (fun same => congrArg (Span.point ∘ Span.start) same) options.config
  rw [reportOn, reportOn, FrontEnd.parseLexed, FrontEnd.parseLexed, reads.diagnostics,
    reads'.diagnostics]
  rcases Program.parse_like sessions with
    ⟨fault, stopped, stopped'⟩ | ⟨⟨root, reported⟩, ⟨root', reported'⟩, ran, ran', roots, same⟩
  · have place : (s.lexed.tokens.token fault.position).span =
        (s'.lexed.tokens.token fault.position).span := (tokens.token fault.position).span
    simp only [stopped, stopped', Fault.diagnostic, place]
  · have shown : root'.map (f.program.outlineContext s'.names).outline =
        root.map (f.program.outlineContext s.names).outline := by
      cases roots with
      | none => rw [Option.map_none, Option.map_none]
      | some trees => exact congrArg some (outline_eq_of_like trees)
    obtain rfl : reported = reported' := List.forall₂_eq_eq_eq ▸
      same.imp fun _ _ alike => (Diagnostic.eq_of_like_texts alike).symm
    simp only [ran, ran', shown]

/-- A reading under new names is reported as it was under the old ones, if the front end has the
same program under these names. -/
theorem reportOn_rename {known : Interner} {f g : FrontEnd} (made : FrontEnd.over known = .ok f)
    {ρ : Name → Name} {into : Interner} {s : LexedSource} (injective : Function.Injective ρ)
    (texts : ∀ n, into.text (ρ n) = s.names.text n) (same : g.program = f.program.rename ρ)
    (options : Options) (path source : String) :
    reportOn g options path source (s.rename ρ into) = reportOn f options path source s := by
  rw [reportOn, reportOn, FrontEnd.parseLexed, FrontEnd.parseLexed, same]
  have parsed : (f.program.rename ρ).parse (s.rename ρ into).names
      (s.rename ρ into).lexed.tokens options.config =
        (f.program.parse s.names s.lexed.tokens options.config).map (ParseOutput.rename ρ) :=
    Lkt.parse_rename made injective texts options.config
  rw [parsed]
  cases f.program.parse s.names s.lexed.tokens options.config with
  | error fault =>
    have place : ((s.rename ρ into).lexed.tokens.token fault.position).span =
        (s.lexed.tokens.token fault.position).span := by
      rw [LexedSource.rename, TokenStream.token_rename]
      rfl
    simp only [Except.map, Fault.diagnostic, place]
    rfl
  | ok output =>
    have shown : (output.root.map (Value.rename ρ)).map
          ((f.program.rename ρ).outlineContext into).outline =
        output.root.map (f.program.outlineContext s.names).outline := by
      rw [Option.map_map]
      refine Option.map_congr fun v _ => ?_
      exact outline_eq_of_keepsTexts (Likeness.keepsTexts_renaming texts) v.like_rename
    simp only [Except.map, ParseOutput.rename]
    rw [show (s.rename ρ into).names = into from rfl, shown]
    rfl

/-- Readings of one source are reported alike, whatever interners they were made in and whatever
interners the front ends were built over. -/
theorem reportOn_eq {known other : Interner} {f g : FrontEnd} (made : FrontEnd.over known = .ok f)
    (made' : FrontEnd.over other = .ok g) (options : Options) (path : String) {source : String}
    {s t : LexedSource} (reads : s.Reads source) (reads' : t.Reads source)
    (grows : f.names.Grows s.names) (grows' : g.names.Grows t.names) :
    reportOn g options path source t = reportOn f options path source s := by
  have within := Interner.within_knowing s.names t.names
  have later : t.names.Grows (t.names.knowing s.names) := .internAll _ _
  obtain ⟨g', made'', renamed⟩ := Lkt.exists_over made other
  obtain rfl : g' = g := Except.ok.inj (made''.symm.trans made')
  have same := renamed _ _ (grows'.trans later) fun _ _ given => within.gives_embed (grows given)
  calc reportOn g' options path source t
      = reportOn g' options path source (s.rename _ (t.names.knowing s.names)) :=
        (reportOn_eq_of_reads made' options path reads'
          (reads.rename fun _ _ => within.gives_embed) grows' (grows'.trans later)).symm
    _ = reportOn f options path source s :=
        reportOn_rename made within.embed_injective within.text_embed same options path source

/-- One of the files that are read at the same time: the tokens whose texts have been interned, and
the words whose texts are still to be interned. -/
structure Reader where
  path : String
  source : String
  cut : List Token
  rest : List (TokenKind × String × Span)

namespace Reader

/-- The reader of a file that has not begun. -/
def start (file : String × String) : Reader := ⟨file.1, file.2, [], Lkt.words file.2⟩

/-- The source as the reader has cut it, over the interner that all readers share. -/
def lexed (names : Interner) (r : Reader) : LexedSource :=
  ⟨⟨.ofList r.cut (Lkt.extent r.source), Lkt.remarks r.source⟩, names⟩

/-- The report on the file once all its words are cut. -/
def report (f : FrontEnd) (options : Options) (names : Interner) (r : Reader) : FileReport :=
  reportOn f options r.path r.source (r.lexed names)

/-- What the reader has cut are the first words of its source. -/
def Sound (names : Interner) (r : Reader) : Prop :=
  ∃ taken, taken ++ r.rest = Lkt.words r.source ∧ List.Forall₂ (Token.Made names) r.cut taken

variable {names later : Interner} {r : Reader}

theorem sound_start (names : Interner) (file : String × String) : (start file).Sound names :=
  ⟨[], rfl, .nil⟩

/-- A reading that is sound stays sound when more texts are interned. -/
theorem Sound.grows (h : r.Sound names) (grows : names.Grows later) : r.Sound later :=
  let ⟨taken, parts, made⟩ := h
  ⟨taken, parts, made.imp fun _ _ first => first.grows grows⟩

/-- A reader that is through has read its source. -/
theorem Sound.reads (h : r.Sound names) (through : r.rest = []) :
    (r.lexed names).Reads r.source := by
  obtain ⟨taken, parts, made⟩ := h
  rw [through, List.append_nil] at parts
  exact ⟨⟨r.cut, parts ▸ made, rfl⟩, rfl⟩

end Reader

/-- Files that are read at the same time, with the interner that their readers share. -/
structure Batch where
  names : Interner
  readers : List Reader

namespace Batch

/-- All files are still to be read. -/
def start (names : Interner) (files : List (String × String)) : Batch :=
  ⟨names, files.map Reader.start⟩

/-- One text is interned: the next one of some reader, or one that comes from elsewhere. -/
inductive Step : Batch → Batch → Prop
  | reader {names : Interner} {before behind : List Reader} {path source : String}
      {cut : List Token} {kind : TokenKind} {text : String} {span : Span}
      {rest : List (TokenKind × String × Span)} :
      Step ⟨names, before ++ ⟨path, source, cut, (kind, text, span) :: rest⟩ :: behind⟩
        ⟨(names.intern text).2,
          before ++ ⟨path, source, cut ++ [⟨kind, (names.intern text).1, span⟩], rest⟩ :: behind⟩
  | other {names : Interner} {readers : List Reader} (text : String) :
      Step ⟨names, readers⟩ ⟨(names.intern text).2, readers⟩

/-- The batch comes of the other by interning texts, in whatever order. -/
def Reaches : Batch → Batch → Prop := Relation.ReflTransGen Step

/-- The interner holds the texts of the front end, and all readers are sound. -/
structure Sound (f : FrontEnd) (b : Batch) : Prop where
  grows : f.names.Grows b.names
  readers : ∀ r ∈ b.readers, r.Sound b.names

variable {f : FrontEnd} {b b' : Batch}

theorem sound_start (f : FrontEnd) (files : List (String × String)) :
    (start f.names files).Sound f where
  grows := .refl _
  readers r among := by
    obtain ⟨file, _, rfl⟩ := List.mem_map.mp among
    exact Reader.sound_start f.names file

/-- What one reader interns makes no difference to the tokens of the others. -/
theorem Step.sound (step : Step b b') (h : b.Sound f) : b'.Sound f := by
  cases step with
  | @reader names before behind path source cut kind text span rest =>
    have later := Interner.Grows.intern names text
    refine ⟨h.grows.trans later, fun r among => ?_⟩
    rcases List.mem_append.mp among with outer | here
    · exact (h.readers r (List.mem_append_left _ outer)).grows later
    · rcases List.mem_cons.mp here with rfl | outer
      · obtain ⟨taken, parts, made⟩ :=
          h.readers _ (List.mem_append_right _ (List.mem_cons_self ..))
        refine ⟨taken ++ [(kind, text, span)], ?_, List.rel_append ?_ (.cons ?_ .nil)⟩
        · rw [List.append_assoc]
          exact parts
        · exact made.imp fun _ _ first => first.grows later
        · exact ⟨rfl, names.gives_intern text, rfl⟩
      · exact (h.readers r (List.mem_append_right _ (List.mem_cons_of_mem _ outer))).grows later
  | @other names _ text =>
    have later := Interner.Grows.intern names text
    exact ⟨h.grows.trans later, fun r among => (h.readers r among).grows later⟩

/-- However a batch goes on, it stays sound. -/
theorem Reaches.sound (h : b.Reaches b') (sound : b.Sound f) : b'.Sound f := by
  induction h with
  | refl => exact sound
  | tail _ step ih => exact step.sound ih

/-- The files of the readers. -/
def files (b : Batch) : List (String × String) := b.readers.map fun r => (r.path, r.source)

/-- However a batch goes on, its files stay the same. -/
theorem Reaches.files_eq (h : b.Reaches b') : b'.files = b.files := by
  induction h with
  | refl => rfl
  | tail _ step ih =>
    rw [← ih]
    cases step with
    | reader => simp only [files, List.map_append, List.map_cons]
    | other => rfl

/-- One reader can take all its words while the others wait. -/
theorem exists_reader_through (names : Interner) (before behind : List Reader) (r : Reader) :
    ∃ names' r', r'.rest = [] ∧
      Reaches ⟨names, before ++ r :: behind⟩ ⟨names', before ++ r' :: behind⟩ := by
  obtain ⟨path, source, cut, rest⟩ := r
  induction rest generalizing names cut with
  | nil => exact ⟨names, _, rfl, .refl⟩
  | cons word rest ih =>
    obtain ⟨names', r', through, reaches⟩ := ih (names.intern word.2.1).2 _
    exact ⟨names', r', through, .head .reader reaches⟩

/-- From any point on a batch can come to its end. -/
theorem exists_through (b : Batch) : ∃ b', b.Reaches b' ∧ ∀ r ∈ b'.readers, r.rest = [] := by
  obtain ⟨names, readers⟩ := b
  suffices ∀ (behind before : List Reader) (names : Interner), (∀ r ∈ before, r.rest = []) →
      ∃ b', Reaches ⟨names, before ++ behind⟩ b' ∧ ∀ r ∈ b'.readers, r.rest = [] from
    this readers [] names (List.forall_mem_nil _)
  intro behind
  induction behind with
  | nil =>
    intro before names through
    rw [List.append_nil]
    exact ⟨_, .refl, through⟩
  | cons r behind ih =>
    intro before names through
    obtain ⟨names', r', ended, first⟩ := exists_reader_through names before behind r
    obtain ⟨b', rest, all⟩ := ih (before ++ [r']) names' <|
      List.forall_mem_append.mpr ⟨through, List.forall_mem_singleton.mpr ended⟩
    rw [List.append_assoc, List.singleton_append] at rest
    exact ⟨b', first.trans rest, all⟩

end Batch

/-- What is reported of a file does not depend on what is read besides. A front end can be built
over every interner, and its reports are those of a front end that is built anew, whatever has been
read with it before and whatever else has been interned. When files are read at the same time, so
that their texts are interned in any order and others in between, then as soon as a file is cut, and
at any later time, its report is that of the file when a new front end reads it alone; and all files
can be cut in the end. -/
theorem reports_independent (known : Interner) (options : Options) :
    ∃ f fresh, FrontEnd.over known = .ok f ∧ Lkt.frontEnd = .ok fresh ∧
      (∀ history texts path source,
        check ((f.after history).knowing texts) options path source =
          check fresh options path source) ∧
      ∀ files b, (Batch.start f.names files).Reaches b →
        b.files = files ∧ (∃ b', b.Reaches b' ∧ ∀ r ∈ b'.readers, r.rest = []) ∧
        ∀ r ∈ b.readers, r.rest = [] →
          r.report f options b.names =
            check fresh { options with files := [r.path] } r.path r.source := by
  obtain ⟨fresh, anew, -⟩ := Lkt.exists_charted
  obtain ⟨f, made, -⟩ := Lkt.exists_over anew known
  refine ⟨f, fresh, made, anew, fun history texts path source => ?_,
    fun files b reaches => ⟨?_, b.exists_through, fun r among through => ?_⟩⟩
  · obtain ⟨program, grows⟩ := f.after_grows history
    have more := grows.trans (Interner.Grows.internAll (f.after history).names texts)
    have later : reportOn ((f.after history).knowing texts) options path source =
        reportOn f options path source := by
      funext lexed
      simp only [reportOn, FrontEnd.parseLexed, FrontEnd.knowing, program]
    rw [check_eq_reportOn, check_eq_reportOn, later]
    exact reportOn_eq anew made options path (Lkt.reads_lex fresh source) (Lkt.reads_lex _ source)
      (Lkt.grows_lex fresh source)
      (more.trans (Lkt.grows_lex ((f.after history).knowing texts) source))
  · rw [reaches.files_eq, Batch.files, Batch.start, List.map_map]
    exact List.map_id files
  · have sound := reaches.sound (Batch.sound_start f files)
    exact reportOn_eq anew made options r.path (Lkt.reads_lex fresh r.source)
      ((sound.readers r among).reads through) (Lkt.grows_lex fresh r.source) sound.grows

end Cli

end CombinatorGrammar
