import Gml.Proofs.Lint.Repeating
import Gml.Proofs.Server.Waiting

/-!
# The documentation of scripts

The signature and the description of a script come from the text of its document. They are read
whenever the text is analysed, and they reach the script that the document is linked to then. So
what a script is said to take depends on which texts were analysed and on when the script was
registered.
-/
namespace Gml

/-- What a text without errors says about the script that it is the code of. -/
def Docs.update (text : String) : DocUpdate := (Docs.read (parse text).tree).1.elim .clear .set

/-- What the analysis of a text changes in the documentation of its script. -/
def Reading.update (r : Reading) : DocUpdate :=
  if (parse r.text).ok = true ∧ r.kind.isScript = true then Docs.update r.text else .unchanged

theorem LintDocument.found_doc (d : LintDocument) : (d.found {}).doc = d.asReading.update := by
  rw [Reading.update, asReading]
  cases hok : (parse d.text).ok with
  | false => rw [found_of_errors hok, if_neg fun h => Bool.false_ne_true h.1]
  | true =>
      rw [found_of_ok hok, if_pos rfl, readDoc_withParse hok]
      simp [Docs.update]

/-! ### One text -/

namespace Server

variable {server : Server} {document : Document} {url : Url}

theorem updates_analyse (hsteady : server.Steady) (hlinked : server.index.table.Linked)
    (hdocument : server.document? url = some document) (text : String) (mode : LintMode) :
    (server.analyse url text mode).2.index.table.Linked ∧
      SymbolTable.Updates url.render (Reading.update ⟨url.render, document.kind, text⟩)
        server.index.table (server.analyse url text mode).2.index.table := by
  obtain ⟨nextSequence, accepted, hanalyse⟩ := hsteady.analyse_eq hdocument text mode
  have hupdate := (server.roundOf document url text).found_doc
  have hinstall := SymbolTable.updates_install hlinked url.render
    ((server.roundOf document url text).found {})
  rw [hupdate] at hinstall
  rw [hanalyse]
  exact ⟨hlinked.install _ _, hinstall⟩

/-- A document is registered already if its kind names no script or the name is taken. -/
def Registered (server : Server) (document : Document) : Prop :=
  ∀ name, document.kind = .script name → server.index.table.Taken name

theorem updates_register (hlinked : server.index.table.Linked)
    (hdocument : server.document? url = some document) (hregistered : server.Registered document) :
    (server.register url).index.table.Linked ∧ SymbolTable.Updates url.render .unchanged
      server.index.table (server.register url).index.table := by
  rw [register, hdocument]
  dsimp only [setTable]
  refine ⟨hlinked.registerIfPossible _ _, ?_⟩
  obtain ⟨scripts, scriptAt, objects, objectAt, hregister, -, ⟨rfl, rfl⟩ | ⟨name, hkind, -⟩⟩ :=
    server.index.table.registerIfPossible_eq url.render document.kind
  · rw [hregister]
    exact .of_eq rfl rfl
  · rw [hkind, (hregistered name hkind).register_eq]
    exact .refl _ _

/-- A document that is registered already tells its script what a text says. -/
theorem updates_register_analyse (hsteady : server.Steady) (hlinked : server.index.table.Linked)
    (hdocument : server.document? url = some document) (hregistered : server.Registered document)
    (text : String) (mode : LintMode) :
    ((server.register url).analyse url text mode).2.index.table.Linked ∧
      SymbolTable.Updates url.render (Reading.update ⟨url.render, document.kind, text⟩)
        server.index.table ((server.register url).analyse url text mode).2.index.table := by
  obtain ⟨hlinked', hregister⟩ := updates_register hlinked hdocument hregistered
  have hknown : (server.register url).document? url = some document := by
    rw [document?_register, hdocument]
  obtain ⟨hlinked'', hanalyse⟩ :=
    updates_analyse (steady_register hsteady url) hlinked' hknown text mode
  have hboth := hregister.trans hanalyse
  rw [DocUpdate.unchanged_andThen] at hboth
  exact ⟨hlinked'', hboth⟩

/-- The steps of a server keep a name taken. -/
theorem Evolves.taken {fits : Document → String → Prop} {next : Server}
    (h : Evolves fits server next) (hlinked : server.index.table.Linked) {name : String}
    (htaken : server.index.table.Taken name) : next.index.table.Taken name := by
  have hboth : next.index.table.Linked ∧ next.index.table.Taken name :=
    h.keeps (P := fun t => t.Linked ∧ t.Taken name)
      (fun _ uri kind ht => ⟨ht.1.registerIfPossible uri kind, ht.2.registerIfPossible uri kind⟩)
      (fun _ uri found ht => ⟨ht.1.install uri found, ht.2.install ht.1 uri found⟩)
      ⟨hlinked, htaken⟩
  exact hboth.2

end Server

namespace IndexRun

variable {run : IndexRun} {file : SourceFile} {url : Url} {text : String}

/-- A file that is read tells the script of its document what its text says. -/
theorem updates_step (hsteady : run.session.server.Steady)
    (hlinked : run.session.server.index.table.Linked) (huri : file.uri = url.render)
    (hclosed : run.session.server.hasOpen url = false)
    (hread : run.session.disk.read? file.path = some text) :
    (run.step file).session.server.index.table.Linked ∧
      SymbolTable.Updates url.render
        (if run.skips file text then .unchanged else (file.reading text).update)
        run.session.server.index.table (run.step file).session.server.index.table := by
  have hsame : run.session.server.hasOpen file.url = run.session.server.hasOpen url :=
    Server.hasOpen_of_eq (congrArg run.session.server.documents.get? huri)
  rw [server_step_of_closed (hsame.trans hclosed) hread]
  split
  · exact ⟨hlinked, .refl _ _⟩
  · have hknown : (run.session.server.putDocument (file.document text)).document? file.url =
        some (file.document text) := run.session.server.document?_putDocument rfl
    rw [← huri]
    exact Server.updates_analyse (hsteady.putDocument _) hlinked hknown text .bootstrap

/-- The document of a file that is read is one of the file. -/
theorem document?_step (hsteady : run.session.server.Steady) (huri : file.uri = url.render)
    (hclosed : run.session.server.hasOpen url = false)
    (hread : run.session.disk.read? file.path = some text) :
    ∃ document, (run.step file).session.server.document? url = some document ∧
      document.kind = file.kind ∧ document.content = text := by
  have hsame : run.session.server.hasOpen file.url = run.session.server.hasOpen url :=
    Server.hasOpen_of_eq (congrArg run.session.server.documents.get? huri)
  have hknown : (run.session.server.putDocument (file.document text)).document? file.url =
      some (file.document text) := run.session.server.document?_putDocument rfl
  rw [server_step_of_closed (hsame.trans hclosed) hread]
  split
  · exact ⟨_, run.session.server.document?_putDocument huri, rfl, rfl⟩
  · obtain ⟨nextSequence, accepted, hanalyse⟩ :=
      (hsteady.putDocument (file.document text)).analyse_eq hknown text .bootstrap
    rw [hanalyse]
    exact ⟨_, Server.document?_putDocument _ huri, rfl, rfl⟩

theorem disk_steps (run : IndexRun) (files : List SourceFile) :
    (files.foldl step run).session.disk = run.session.disk :=
  (Session.SameProject.of_steps run files).disk

theorem steady_steps (hsteady : run.session.server.Steady) (files : List SourceFile) :
    (files.foldl step run).session.server.Steady := by
  induction files generalizing run with
  | nil => exact hsteady
  | cons file rest ih => exact ih (steady_step hsteady file)

/-- If one of some files has an address and can be read, the document with this address is one
of these files in the end. -/
theorem document?_steps (hsteady : run.session.server.Steady)
    (hclosed : run.session.server.hasOpen url = false) {files : List SourceFile}
    (hfile : file ∈ files) (huri : file.uri = url.render)
    (hread : run.session.disk.read? file.path = some text) :
    ∃ listed ∈ files, listed.uri = url.render ∧ ∃ document,
      (files.foldl step run).session.server.document? url = some document ∧
        document.kind = listed.kind ∧
          run.session.disk.read? listed.path = some document.content := by
  induction files using List.reverseRecOn with
  | nil => cases hfile
  | append_singleton files last ih =>
      have hsteady' := steady_steps hsteady files
      have hclosed' := (hasOpen_steps hsteady files url).trans hclosed
      have hdisk := run.disk_steps files
      rw [List.foldl_append]
      dsimp only [List.foldl_cons, List.foldl_nil]
      -- Either the last file is one with the address, or nothing happens at the address.
      cases hlast : run.session.disk.read? last.path with
      | some text' =>
          by_cases hat : last.uri = url.render
          · obtain ⟨document, hdocument, hkind, rfl⟩ :=
              document?_step hsteady' hat hclosed' (hdisk ▸ hlast)
            exact ⟨last, List.mem_append_right _ List.mem_cons_self, hat, document, hdocument,
              hkind, hlast⟩
          · have hbefore : file ∈ files := by
              refine (List.mem_append.mp hfile).resolve_right fun hsame => hat ?_
              rw [← List.mem_singleton.mp hsame]
              exact huri
            obtain ⟨listed, hlisted, hlistedAt, document, hdocument, hkind, hcontent⟩ := ih hbefore
            refine ⟨listed, List.mem_append_left _ hlisted, hlistedAt, document, ?_, hkind,
              hcontent⟩
            exact (leavesAt_step hsteady' (Ne.symm hat)).document.trans hdocument
      | none =>
          have hbefore : file ∈ files := by
            refine (List.mem_append.mp hfile).resolve_right fun hsame => ?_
            rw [← List.mem_singleton.mp hsame, hread] at hlast
            cases hlast
          obtain ⟨listed, hlisted, hlistedAt, document, hdocument, hkind, hcontent⟩ := ih hbefore
          refine ⟨listed, List.mem_append_left _ hlisted, hlistedAt, document, ?_, hkind, hcontent⟩
          rw [server_step_of_unreadable (hdisk ▸ hlast)]
          exact hdocument

/-! ### All files -/

/-- A file with an address is analysed, and it is a script with some text. -/
def TellsNow (run : IndexRun) (file : SourceFile) (uri : Uri) (text : String) : Prop :=
  file.uri = uri ∧ file.kind.isScript = true ∧
    run.session.disk.read? file.path = some text ∧ run.skips file text = false

/-- One of some files does so when it is its turn. -/
def Tells (run : IndexRun) (uri : Uri) (text : String) : List SourceFile → Prop
  | [] => False
  | file :: rest => run.TellsNow file uri text ∨ (run.step file).Tells uri text rest

theorem exists_of_tells {uri : Uri} {files : List SourceFile} (h : run.Tells uri text files) :
    ∃ file ∈ files, file.uri = uri ∧ file.kind.isScript = true := by
  induction files generalizing run with
  | nil => exact h.elim
  | cons first rest ih =>
      rcases h with hnow | hlater
      · exact ⟨first, List.mem_cons_self, hnow.1, hnow.2.1⟩
      · obtain ⟨file, hfile, hscript⟩ := ih hlater
        exact ⟨file, List.mem_cons_of_mem first hfile, hscript⟩

/-- What one file does to the script at an address. -/
theorem updates_step_of_tells (hsteady : run.session.server.Steady)
    (hlinked : run.session.server.index.table.Linked)
    (hclosed : run.session.server.hasOpen url = false) (hok : (parse text).ok = true)
    (hsingle : file.uri = url.render → ∀ text', run.session.disk.read? file.path = some text' →
      text' = text) :
    (run.step file).session.server.index.table.Linked ∧
    (run.TellsNow file url.render text → SymbolTable.Updates url.render (Docs.update text)
      run.session.server.index.table (run.step file).session.server.index.table) ∧
    (¬ run.TellsNow file url.render text → SymbolTable.Updates url.render .unchanged
      run.session.server.index.table (run.step file).session.server.index.table) := by
  by_cases hat : file.uri = url.render
  · cases hread : run.session.disk.read? file.path with
    | none =>
        rw [server_step_of_unreadable hread]
        refine ⟨hlinked, fun htells => ?_, fun _ => .refl _ _⟩
        have hsome := htells.2.2.1
        rw [hread] at hsome
        cases hsome
    | some text' =>
        obtain rfl := hsingle hat text' hread
        obtain ⟨hlinked', hupdates⟩ := updates_step hsteady hlinked hat hclosed hread
        have hupdate : (file.reading text').update =
            if file.kind.isScript = true then Docs.update text' else .unchanged := by
          simp only [Reading.update, SourceFile.reading, hok, true_and]
        rw [hupdate] at hupdates
        refine ⟨hlinked', fun htells => ?_, fun hother => ?_⟩
        · obtain ⟨-, hscript, -, hskips⟩ := htells
          rw [hskips, if_neg Bool.false_ne_true, if_pos hscript] at hupdates
          exact hupdates
        · cases hskips : run.skips file text' with
          | true =>
              rw [hskips, if_pos rfl] at hupdates
              exact hupdates
          | false =>
              have hscript : ¬ file.kind.isScript = true := fun hscript =>
                hother ⟨hat, hscript, hread, hskips⟩
              rw [hskips, if_neg Bool.false_ne_true, if_neg hscript] at hupdates
              exact hupdates
  · obtain ⟨hlinked', hupdates⟩ := (leavesAt_step hsteady (Ne.symm hat)).scripts hlinked
    exact ⟨hlinked', fun htells => absurd htells.1 hat, fun _ => hupdates⟩

/-- The script at an address hears what the text there says if and only if one of the files is
analysed for it. -/
theorem updates_steps (hsteady : run.session.server.Steady)
    (hlinked : run.session.server.index.table.Linked)
    (hclosed : run.session.server.hasOpen url = false) (hok : (parse text).ok = true)
    {files : List SourceFile} (hsingle : ∀ file ∈ files, file.uri = url.render → ∀ text',
      run.session.disk.read? file.path = some text' → text' = text) :
    (files.foldl step run).session.server.index.table.Linked ∧
    (run.Tells url.render text files → SymbolTable.Updates url.render (Docs.update text)
      run.session.server.index.table (files.foldl step run).session.server.index.table) ∧
    (¬ run.Tells url.render text files → SymbolTable.Updates url.render .unchanged
      run.session.server.index.table (files.foldl step run).session.server.index.table) := by
  induction files generalizing run with
  | nil => exact ⟨hlinked, False.elim, fun _ => .refl _ _⟩
  | cons file rest ih =>
      have hdisk : (run.step file).session.disk = run.session.disk := run.disk_steps [file]
      obtain ⟨hlinked', htold, hother⟩ :=
        updates_step_of_tells hsteady hlinked hclosed hok (hsingle file List.mem_cons_self)
      have hrest := ih (steady_step hsteady file) hlinked'
        ((hasOpen_step hsteady file url).trans hclosed) (by
          rw [hdisk]
          exact fun other hmem => hsingle other (List.mem_cons_of_mem file hmem))
      obtain ⟨hlinked'', htoldLater, hotherLater⟩ := hrest
      refine ⟨hlinked'', fun htells => ?_, fun hnone => ?_⟩
      · by_cases hlater : (run.step file).Tells url.render text rest
        · by_cases hnow : run.TellsNow file url.render text
          · have hboth := (htold hnow).trans (htoldLater hlater)
            rw [DocUpdate.andThen_self] at hboth
            exact hboth
          · have hboth := (hother hnow).trans (htoldLater hlater)
            rw [DocUpdate.unchanged_andThen] at hboth
            exact hboth
        · have hboth := (htold (htells.resolve_right hlater)).trans (hotherLater hlater)
          rw [DocUpdate.andThen_unchanged] at hboth
          exact hboth
      · obtain ⟨hnow, hlater⟩ := not_or.mp hnone
        exact (hother hnow).trans (hotherLater hlater)

/-- Where all listings are scripts, the first of them that can be read is analysed unless its text
is the one that the table comes from. -/
theorem tells_of_not_skips (hsteady : run.session.server.Steady) {files : List SourceFile}
    (hscripts : ∀ other ∈ files, other.uri = file.uri → other.kind.isScript = true)
    (hsingle : ∀ other ∈ files, other.uri = file.uri → ∀ text',
      run.session.disk.read? other.path = some text' → text' = text)
    (hfile : file ∈ files) (hread : run.session.disk.read? file.path = some text)
    (hskips : run.skips file text = false) : run.Tells file.uri text files := by
  induction files generalizing run with
  | nil => cases hfile
  | cons first rest ih =>
      have hdisk : (run.step first).session.disk = run.session.disk := run.disk_steps [first]
      by_cases hnow : run.TellsNow first file.uri text
      · exact .inl hnow
      · -- The first file is another one, or it cannot be read.
        have hleaves : Server.LeavesAt file.uri run.session.server
            (run.step first).session.server := by
          by_cases hat : first.uri = file.uri
          · cases hfirst : run.session.disk.read? first.path with
            | none =>
                rw [server_step_of_unreadable hfirst]
                exact .refl _ _
            | some text' =>
                obtain rfl := hsingle first List.mem_cons_self hat text' hfirst
                have hsame : run.skips first text' = run.skips file text' := by
                  rw [IndexRun.skips, IndexRun.skips, hat]
                exact absurd ⟨hat, hscripts first List.mem_cons_self hat, hfirst,
                  hsame.trans hskips⟩ hnow
          · exact leavesAt_step hsteady (Ne.symm hat)
        have hrest : file ∈ rest := by
          refine (List.mem_cons.mp hfile).resolve_left ?_
          rintro rfl
          exact hnow ⟨rfl, hscripts file List.mem_cons_self rfl, hread, hskips⟩
        have hskips' : (run.step first).skips file text = false := by
          have hrestored := (run.reads_step first).2
          have hhash := hleaves.agrees.2
          rw [IndexRun.skips, hrestored, hhash]
          exact hskips
        exact .inr (ih (steady_step hsteady first)
          (fun other hother => hscripts other (List.mem_cons_of_mem first hother))
          (by
            rw [hdisk]
            exact fun other hother => hsingle other (List.mem_cons_of_mem first hother))
          hrest (hdisk ▸ hread) hskips')

end IndexRun

end Gml
