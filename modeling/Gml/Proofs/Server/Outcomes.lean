import Gml.Proofs.Server.Opening

/-!
# What is left of the files

When a new server has read its files, what is known at an address comes from the file there. It
does not depend on the other files, nor on the place of the file among them.
-/
namespace Gml

/-- What is read in a file, if it can be read and its text has no errors. -/
def SourceFile.reading? (file : SourceFile) (disk : Disk) : Option Reading :=
  ((disk.read? file.path).map file.reading).filter fun reading => (parse reading.text).ok

namespace SymbolTable

variable {t t' t'' : SymbolTable} {uri : Uri} {read : Option Reading}

/-- What the reading of a text leaves at an address: a contribution, a hash and the documentation
of a script. Where nothing is read, nothing changes. -/
structure Takes (uri : Uri) (read : Option Reading) (t t' : SymbolTable) : Prop where
  contribution : t'.contribution? uri =
    read.elim (t.contribution? uri) fun reading => reading.contribution.stored
  hash : t'.hashes.get? uri = read.elim (t.hashes.get? uri) fun reading => some reading.hash
  script : Updates uri (read.elim .unchanged Reading.update) t t'

namespace Takes

theorem of_agrees (hagrees : t.Agrees t' uri) (hscript : Updates uri .unchanged t t') :
    Takes uri none t t' := ⟨hagrees.1, hagrees.2, hscript⟩

theorem of_holds {reading : Reading} (huri : reading.uri = uri) (hholds : t'.Holds reading)
    (hscript : Updates uri reading.update t t') : Takes uri (some reading) t t' := by
  subst huri
  refine ⟨?_, ?_, hscript⟩
  · rw [Option.elim_some]
    exact hholds.1
  · rw [Option.elim_some]
    exact hholds.2

theorem refl (uri : Uri) (t : SymbolTable) : Takes uri none t t :=
  .of_agrees ⟨rfl, rfl⟩ (.refl uri t)

theorem then_nothing (h : Takes uri read t t') (h' : Takes uri none t' t'') :
    Takes uri read t t'' := by
  refine ⟨h'.contribution.trans h.contribution, h'.hash.trans h.hash, ?_⟩
  have hboth := h.script.trans h'.script
  rwa [Option.elim_none, DocUpdate.andThen_unchanged] at hboth

/-- What was read before does not matter, if it said the same or nothing. -/
theorem after (h : Takes uri read t t') (h' : Takes uri read t' t'') : Takes uri read t t'' := by
  cases read with
  | none => exact h.then_nothing h'
  | some reading =>
      refine ⟨h'.contribution, h'.hash, ?_⟩
      have hboth := h.script.trans h'.script
      rwa [DocUpdate.andThen_self] at hboth

theorem after_nothing (h : Takes uri none t t') (h' : Takes uri read t' t'') :
    Takes uri read t t'' := by
  refine ⟨?_, ?_, ?_⟩
  · rw [h'.contribution, h.contribution, Option.elim_none]
  · rw [h'.hash, h.hash, Option.elim_none]
  · have hboth := h.script.trans h'.script
    rwa [Option.elim_none, DocUpdate.unchanged_andThen] at hboth

end Takes

/-- The scripts at all addresses are all scripts. -/
theorem scripts_get?_eq {name : String} (h : ∀ uri, t'.scriptOf? uri name = t.scriptOf? uri name) :
    t'.scripts.get? name = t.scripts.get? name := by
  have hfound : ∀ {t t' : SymbolTable} {script : ScriptRecord},
      (∀ uri, t'.scriptOf? uri name = t.scriptOf? uri name) →
        t.scripts.get? name = some script → t'.scripts.get? name = some script := by
    intro t t' script hsame hscript
    have hown : t.scriptOf? script.uri name = some script := by
      rw [scriptOf?, hscript, Option.filter_some, if_pos (beq_self_eq_true _)]
    exact (Option.filter_eq_some_iff.mp ((hsame script.uri).trans hown)).1
  cases hscript : t'.scripts.get? name with
  | some script => exact (hfound (fun uri => (h uri).symm) hscript).symm
  | none =>
      cases hother : t.scripts.get? name with
      | none => rfl
      | some script =>
          rw [hfound h hother] at hscript
          cases hscript

/-- Where the same was read in two tables whose scripts were the same, they are the same. -/
theorem Takes.scriptOf?_eq {u u' : SymbolTable} {name : String} (h : Takes uri read t t')
    (h' : Takes uri read u u') (hlink : u.scriptAt.get? uri = t.scriptAt.get? uri)
    (hscript : u.scripts.get? name = t.scripts.get? name) :
    u'.scriptOf? uri name = t'.scriptOf? uri name := by
  have hstart : u.scriptOf? uri name = t.scriptOf? uri name := by
    rw [scriptOf?, scriptOf?, hscript]
  rw [h'.script.scripts, h.script.scripts, hlink, hstart]

end SymbolTable

/-! ### Along the files -/

namespace Server

variable {server : Server} {document : Document} {url : Url}

/-- A text with errors leaves the table as it is. -/
theorem agrees_analyse_of_errors (hsteady : server.Steady)
    (hdocument : server.document? url = some document) {text : String}
    (hok : (parse text).ok = false) (mode : LintMode) :
    server.index.table.Agrees (server.analyse url text mode).2.index.table url.render := by
  obtain ⟨nextSequence, accepted, hanalyse⟩ := hsteady.analyse_eq hdocument text mode
  have hround : (parse (server.roundOf document url text).text).ok = false := hok
  rw [hanalyse, LintDocument.found_of_errors hround, SymbolTable.Agrees]
  dsimp only
  rw [SymbolIndex.contribution?_install, SymbolIndex.hashes_install, Option.elim_none,
    Option.none_or, ite_self, ite_self]
  exact ⟨rfl, rfl⟩

/-- An analysis changes no object. -/
theorem objects_analyse (hsteady : server.Steady) (hlinked : server.index.table.Linked)
    (hdocument : server.document? url = some document) (text : String) (mode : LintMode) :
    (server.analyse url text mode).2.index.table.objects = server.index.table.objects := by
  obtain ⟨nextSequence, accepted, hanalyse⟩ := hsteady.analyse_eq hdocument text mode
  obtain ⟨scripts, hashes, hinstall, -, -⟩ := SymbolIndex.install_eq hlinked.named url.render
    ((server.roundOf document url text).found {})
  rw [hanalyse, hinstall]
  dsimp only
  cases ((server.roundOf document url text).found {}).contribution with
  | none => rfl
  | some c => exact (SymbolTable.resources_replaceContribution _ url.render c).2.1

end Server

namespace IndexRun

variable {run : IndexRun} {file : SourceFile} {uri : Uri}

/-- A file that is read leaves what its text says. -/
theorem takes_step (hsteady : run.session.server.Steady)
    (hlinked : run.session.server.index.table.Linked) (hcold : run.restored = false)
    (hclosed : run.session.server.hasOpen file.url = false) :
    (run.step file).session.server.index.table.Linked ∧
      SymbolTable.Takes file.uri (file.reading? run.session.disk)
        run.session.server.index.table (run.step file).session.server.index.table ∧
      (run.step file).session.server.index.table.objects =
        run.session.server.index.table.objects := by
  cases hread : run.session.disk.read? file.path with
  | none =>
      rw [server_step_of_unreadable hread, SourceFile.reading?, hread]
      exact ⟨hlinked, .refl _ _, rfl⟩
  | some text =>
      obtain ⟨hlinked', hupdates⟩ := updates_step hsteady hlinked rfl hclosed hread
      have hanalysed : run.skips file text = false := by rw [skips, hcold, Bool.false_and]
      have hknown : (run.session.server.putDocument (file.document text)).document? file.url =
          some (file.document text) := run.session.server.document?_putDocument rfl
      have hput := hsteady.putDocument (file.document text)
      have hreading : file.reading? run.session.disk =
          if (parse text).ok = true then some (file.reading text) else none := by
        rw [SourceFile.reading?, hread, Option.map_some, Option.filter_some]
        rfl
      rw [hanalysed, if_neg Bool.false_ne_true] at hupdates
      refine ⟨hlinked', ?_, ?_⟩
      · have hserver := server_step_of_closed hclosed hread
        rw [hanalysed, if_neg Bool.false_ne_true] at hserver
        rw [hreading]
        cases hok : (parse text).ok with
        | true =>
            have hholds := file.holds_analyse hput.timely hknown hok
            rw [← hserver] at hholds
            exact .of_holds rfl hholds hupdates
        | false =>
            have hagrees := Server.agrees_analyse_of_errors hput hknown hok .bootstrap
            have hsilent : (file.reading text).update = .unchanged := by
              rw [Reading.update, if_neg]
              rintro ⟨hok', -⟩
              exact Bool.false_ne_true (hok.symm.trans hok')
            rw [← hserver] at hagrees
            rw [hsilent] at hupdates
            exact .of_agrees hagrees hupdates
      · rw [server_step_of_closed hclosed hread, hanalysed, if_neg Bool.false_ne_true]
        exact Server.objects_analyse hput hlinked hknown text .bootstrap

/-- At an address the files leave what is read there, if all of them that lie there read the
same. -/
theorem takes_steps (hsteady : run.session.server.Steady)
    (hlinked : run.session.server.index.table.Linked) (hcold : run.restored = false)
    (hclosed : ∀ url, run.session.server.hasOpen url = false) {files : List SourceFile}
    {read : Option Reading}
    (hread : ∀ file ∈ files, file.uri = uri → file.reading? run.session.disk = read) :
    SymbolTable.Takes uri (if uri ∈ files.map SourceFile.uri then read else none)
      run.session.server.index.table
      (files.foldl step run).session.server.index.table ∧
    (files.foldl step run).session.server.index.table.objects =
      run.session.server.index.table.objects := by
  induction files generalizing run with
  | nil => exact ⟨.refl _ _, rfl⟩
  | cons file rest ih =>
      obtain ⟨hlinked', htakes, hobjects⟩ := takes_step hsteady hlinked hcold (hclosed file.url)
      have hdisk : (run.step file).session.disk = run.session.disk := run.disk_steps [file]
      obtain ⟨hrest, hobjects'⟩ := ih (steady_step hsteady file) hlinked'
        ((run.reads_step file).2.trans hcold)
        (fun url => (hasOpen_step hsteady file url).trans (hclosed url)) (by
          rw [hdisk]
          exact fun other hother => hread other (List.mem_cons_of_mem file hother))
      have hmem : uri ∈ (file :: rest).map SourceFile.uri ↔
          uri = file.uri ∨ uri ∈ rest.map SourceFile.uri := List.mem_cons
      refine ⟨?_, hobjects'.trans hobjects⟩
      by_cases hat : file.uri = uri
      · rw [hat, hread file List.mem_cons_self hat] at htakes
        rw [if_pos (hmem.mpr (.inl hat.symm))]
        split at hrest
        · exact htakes.after hrest
        · exact htakes.then_nothing hrest
      · have hleaves := leavesAt_step hsteady (Ne.symm hat)
        have hnothing := SymbolTable.Takes.of_agrees hleaves.agrees (hleaves.scripts hlinked).2
        rw [if_congr (hmem.trans (or_iff_right (Ne.symm hat))) rfl rfl]
        exact hnothing.after_nothing hrest

/-- Of all files that lie at an address, the last one leaves what its text says. -/
theorem contribution?_steps_concat (hsteady : run.session.server.Steady)
    (hlinked : run.session.server.index.table.Linked) (hcold : run.restored = false)
    (hclosed : ∀ url, run.session.server.hasOpen url = false) (files : List SourceFile)
    {text : String} (hread : run.session.disk.read? file.path = some text)
    (hok : (parse text).ok = true) :
    ((files ++ [file]).foldl step run).session.server.index.table.contribution? file.uri =
      (file.reading text).contribution.stored := by
  induction files generalizing run with
  | nil =>
      have hreading : file.reading? run.session.disk = some (file.reading text) := by
        rw [SourceFile.reading?, hread, Option.map_some, Option.filter_some]
        exact if_pos hok
      obtain ⟨-, htakes, -⟩ := takes_step hsteady hlinked hcold (hclosed file.url)
      have hcontribution := htakes.contribution
      rwa [hreading, Option.elim_some] at hcontribution
  | cons first rest ih =>
      have hdisk : (run.step first).session.disk = run.session.disk := run.disk_steps [first]
      rw [← hdisk] at hread
      exact ih (steady_step hsteady first) (takes_step hsteady hlinked hcold (hclosed first.url)).1
        ((run.reads_step first).2.trans hcold)
        (fun url => (hasOpen_step hsteady first url).trans (hclosed url)) hread

end IndexRun

/-! ### A new server -/

namespace Session

variable {session : Session} {uri : Uri}

namespace StartsCold

theorem closed (h : session.StartsCold) (url : Url) :
    session.firstRun.1.session.server.hasOpen url = false := by
  rw [Server.hasOpen, Server.document?, session.firstRun_eq.1, h.fresh.documents]
  rfl

/-- What a new server knows at an address when it has read its files. -/
theorem takes (h : session.StartsCold) {read : Option Reading}
    (hread : ∀ file ∈ session.indexWorkspace.2.discovered, file.uri = uri →
      file.reading? session.indexWorkspace.2.disk = read) :
    SymbolTable.Takes uri
      (if uri ∈ session.indexWorkspace.2.discovered.map SourceFile.uri then read else none)
      session.firstRun.1.session.server.index.table session.indexWorkspace.2.server.index.table ∧
    session.indexWorkspace.2.server.index.table.objects =
      session.firstRun.1.session.server.index.table.objects := by
  have hdisk := session.project_indexWorkspace.1
  have hfiles := files_firstRun h.limit
  have hsteps := IndexRun.takes_steps (steady_firstRun h.fresh.steady) h.linked h.table_eq.1
    h.closed (hdisk ▸ hread)
  rw [(indexWorkspace_of_fresh h.fresh).1]
  unfold filesRead
  rw [hfiles]
  exact hsteps

/-- What a new server has read in the last of the files that it finds. -/
theorem contribution?_of_last (h : session.StartsCold) {files : List SourceFile} {file : SourceFile}
    (hfiles : session.indexWorkspace.2.discovered = files ++ [file]) {text : String}
    (hread : session.indexWorkspace.2.disk.read? file.path = some text)
    (hok : (parse text).ok = true) :
    session.indexWorkspace.2.server.index.table.contribution? file.uri =
      (file.reading text).contribution.stored := by
  rw [session.project_indexWorkspace.1] at hread
  have hlast := IndexRun.contribution?_steps_concat (steady_firstRun h.fresh.steady) h.linked
    h.table_eq.1 h.closed files hread hok
  rw [(indexWorkspace_of_fresh h.fresh).1]
  unfold filesRead
  rw [files_firstRun h.limit, hfiles]
  exact hlast

end StartsCold

end Session

end Gml
