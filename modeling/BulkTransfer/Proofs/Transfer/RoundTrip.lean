import Mathlib.Data.List.Infix
import Mathlib.Data.List.Sort
import BulkTransfer.Proofs.Transfer.Receiving
import BulkTransfer.Proofs.Transfer.Uploading

/-!
# There and back

After an upload the objects under the key prefix are the files of the directory
(`Uploaded.object?_iff`), which is what a download offers to another one.  So whatever goes there
comes back (`round_trip`), unless its path becomes overlong in the destination (`not_round_trip`).
-/

namespace BulkTransfer

namespace Transfer

variable {before now : Site} {results : List TransferResult} {container : Text}
  {directory source : Path} {τ υ : Type} {request : Request}

/-! ## After an upload -/

/-- An upload over a store that does not fail succeeds, if no path is overlong. -/
theorem Uploaded.succeeds (h : Uploaded request source before now results)
    (htree : before.files.Tree) (hsound : before.store.IsSound)
    (hshort : ∀ name content, before.files.HoldsFile source
        (Path.resolve before.files.cwd request.directory) name content →
      Files.isOverlong (Path.text (Path.resolve before.files.cwd request.directory ++ [name])) =
        false) : ∀ r ∈ results, r.succeeded = true := by
  intro r hr
  obtain ⟨name, content, hfile, htask⟩ := (h.tasks r.task).1 ⟨r, hr, rfl⟩
  have hpath : r.task.localPath =
      Path.text (Path.resolve before.files.cwd request.directory ++ [name]) := by
    rw [htask]
    exact Enumeration.pathOf_of_isName _ (hfile.isFileName htree).isName
  rw [h.succeeded r hr, hpath]
  exact ⟨hsound.objects _, hshort name content hfile⟩

/-- An upload leaves the container there, and a store that does not fail. -/
theorem Uploaded.isSound (h : Uploaded request source before now results)
    (hsound : before.store.IsSound) :
    now.store.IsSound ∧ now.store.hasContainer request.container = true := by
  refine ⟨⟨fun name => ?_, ?_⟩, ?_⟩
  · rw [Store.failureOf, h.failures]
    exact hsound.objects name
  · rw [h.listingFailure]
    exact hsound.listing
  · rw [h.containers]
    exact Bool.or_eq_true_iff.2 (.inl (beq_self_eq_true _))

/-- After an upload the objects under the key prefix are the files of the directory. -/
theorem Uploaded.object?_iff (h : Uploaded request source before now results)
    (hsucceeded : ∀ r ∈ results, r.succeeded = true)
    (hfree : ∀ name, KeyPrefix.normalize request.keyPrefix <+: name →
      before.store.object? request.container name = none) (name : Text) (content : Bytes) :
    now.store.object? request.container (KeyPrefix.normalize request.keyPrefix ++ name) =
        some content ↔
      before.files.HoldsFile source (Path.resolve before.files.cwd request.directory) name
        content := by
  constructor
  · intro hobject
    by_cases haway : ∀ r ∈ results, r.succeeded = true → ¬ (request.container = request.container ∧
        KeyPrefix.normalize request.keyPrefix ++ name = r.task.objectName)
    · rw [h.others _ _ haway, hfree _ (List.prefix_append _ _)] at hobject
      cases hobject
    · simp only [not_forall, not_not] at haway
      obtain ⟨r, hr, hs, -, hname⟩ := haway
      obtain ⟨other, found, hfile, htask⟩ := (h.tasks r.task).1 ⟨r, hr, rfl⟩
      have hstored := h.objects r hr hs other found hfile htask
      rw [htask] at hname
      obtain rfl := List.append_cancel_left hname
      rw [htask] at hstored
      obtain rfl := Option.some.inj (hobject.symm.trans hstored)
      exact hfile
  · intro hfile
    obtain ⟨r, hr, htask⟩ := (h.tasks _).2 ⟨name, content, hfile, rfl⟩
    have hstored := h.objects r hr (hsucceeded r hr) name content hfile htask
    rwa [htask] at hstored

/-- The results of an upload and of a download of the same files are for the same objects in the
same order. -/
theorem Uploaded.objectNames_eq {results' : List TransferResult}
    (h : Uploaded request source before now results)
    (hsorted : results'.Pairwise fun r s => r.task.objectName < s.task.objectName)
    (htasks : ∀ task, (∃ r ∈ results', r.task = task) ↔ ∃ name content,
      before.files.HoldsFile source (Path.resolve before.files.cwd request.directory) name content ∧
        task = fileTask container directory (KeyPrefix.normalize request.keyPrefix) name) :
    results'.map (fun r => r.task.objectName) = results.map fun r => r.task.objectName := by
  refine List.Pairwise.eq_of_mem_iff (List.pairwise_map.2 hsorted) (List.pairwise_map.2 h.sorted)
    fun object => ?_
  rw [List.mem_map, List.mem_map]
  constructor
  · rintro ⟨r, hr, rfl⟩
    obtain ⟨name, content, hfile, htask⟩ := (htasks r.task).1 ⟨r, hr, rfl⟩
    obtain ⟨s, hs, htask'⟩ := (h.tasks _).2 ⟨name, content, hfile, rfl⟩
    exact ⟨s, hs, by rw [htask, htask']; rfl⟩
  · rintro ⟨s, hs, rfl⟩
    obtain ⟨name, content, hfile, htask⟩ := (h.tasks s.task).1 ⟨s, hs, rfl⟩
    obtain ⟨r, hr, htask'⟩ := (htasks _).2 ⟨name, content, hfile, rfl⟩
    exact ⟨r, hr, by rw [htask, htask']; rfl⟩

/-! ## And back -/

/-- Files that are uploaded from a directory and downloaded into a vacant one, over a store that
does not fail and has no objects under the key prefix, all arrive: both batches give successful
results only, for the same objects in the same order, and below the destination stand the files that
were uploaded and no others, if no path of a file is overlong. -/
theorem round_trip (host host' : Host) (request : Request) (destination : Text)
    (concurrency : Option Number) (observer : Observer τ) (observer' : Observer υ) (site : Site)
    (found : List (Text × Entry)) (source target : Path) (hcwd : site.files.cwd.IsNormal)
    (htree : site.files.Tree)
    (hfault : fault? request.container (concurrencyOf host request).1 request.keyPrefix = none)
    (hfinite : (concurrencyOf host' { request with concurrency }).1.isFinite = true)
    (hsound : site.store.IsSound) (hcreate : site.store.creationFailure = none)
    (hfree : ∀ name, KeyPrefix.normalize request.keyPrefix <+: name →
      site.store.object? request.container name = none)
    (hfound : Enumeration.entries site.files request.directory = .ok found)
    (hsource : site.files.locate .use (Path.text (Path.resolve site.files.cwd request.directory)) =
      .ok source)
    (htarget : site.files.Vacant (Path.resolve site.files.cwd destination) target)
    (hshort : ∀ name content, site.files.HoldsFile source
        (Path.resolve site.files.cwd request.directory) name content →
      Files.isOverlong (Path.text (Path.resolve site.files.cwd request.directory ++ [name])) =
        false ∧
      Files.isOverlong (Path.text (Path.resolve site.files.cwd destination ++ [name])) = false) :
    let up := upload host Site.transport request observer site
    let down := download host' Site.transport { request with directory := destination, concurrency }
      observer' up.world
    ∃ results results', up.outcome = .ok results ∧ down.outcome = .ok results' ∧
      Uploaded request source site up.world results ∧
      (∀ r ∈ results, r.succeeded = true) ∧ (∀ r ∈ results', r.succeeded = true) ∧
      results'.map (fun r => r.task.objectName) = results.map (fun r => r.task.objectName) ∧
      (∀ below content, below ≠ [] →
        (down.world.files.entry? (target ++ below) = some (.file content) ↔
          ∃ name, below = [name] ∧ site.files.HoldsFile source
            (Path.resolve site.files.cwd request.directory) name content)) ∧
      ∀ name content, site.files.HoldsFile source
          (Path.resolve site.files.cwd request.directory) name content →
        down.world.files.read (Path.text (Path.resolve site.files.cwd destination ++ [name])) =
          .ok content := by
  intro up down
  let back : Request := { request with directory := destination, concurrency }
  obtain ⟨results, place, hout, hplace, huploaded, -⟩ :=
    uploaded_of_found observer hcwd htree hfault hcreate hfound
  obtain rfl : source = place := Except.ok.inj (hsource.symm.trans hplace)
  have hsucceeded := huploaded.succeeds htree hsound fun name content hfile =>
    (hshort name content hfile).1
  have hobjects := huploaded.object?_iff hsucceeded hfree
  -- The store offers the files of the directory, and so they are downloaded.
  have hfiles : up.world.files = site.files := huploaded.files
  have hoffers : Offers up.world request.container (KeyPrefix.normalize request.keyPrefix)
      (Path.resolve up.world.files.cwd destination)
      (site.files.HoldsFile source (Path.resolve site.files.cwd request.directory)) :=
    { objects := hobjects
      named := fun _ _ hfile => hfile.isFileName htree
      short := fun name content hfile => by
        rw [hfiles]
        exact (hshort name content hfile).2 }
  have hfault' : fault? back.container (concurrencyOf host' back).1 back.keyPrefix = none :=
    (fault?_congr hfinite (isFinite_of_fault?_eq_none hfault) _ _).trans hfault
  obtain ⟨hsound', hthere⟩ := huploaded.isSound hsound
  obtain ⟨results', hout', hsorted, htasks, hreceived⟩ :=
    @download_offered target υ host' back up.world _ observer' (hfiles ▸ hcwd) (hfiles ▸ htree)
      hfault' hsound' hthere hoffers (hfiles ▸ htarget)
  refine ⟨results, results', hout, hout', huploaded, hsucceeded, hreceived.succeeded,
    huploaded.objectNames_eq hsorted htasks, ?_, ?_⟩
  · intro below content hbelow
    refine hreceived.file_iff (fun below hbelow => ?_) htasks hobjects hbelow content
    rw [hfiles]
    exact htarget.entry?_below (Path.isNormal_resolve hcwd destination) htree hbelow
  · intro name content hfile
    obtain ⟨r, hr, htask⟩ := (htasks _).2 ⟨name, content, hfile, rfl⟩
    obtain ⟨hfound', found', hobject, hentry⟩ := hreceived.holds r hr name htask
    rw [htask] at hobject
    obtain rfl := Option.some.inj (hobject.symm.trans ((hobjects name content).2 hfile))
    rw [hfiles] at hfound'
    exact hfound'.read (hfile.isFileName htree) (hshort name _ hfile).2 hentry

/-- A download of files under a key prefix into a directory that need not be there. -/
def throughPrefix (directory : Text) : Request := ⟨"c", directory, some (.finite 2), some "p"⟩

theorem isSound_siteOfFiles (entries : List (Path × Entry)) : (siteOfFiles entries).store.IsSound :=
  ⟨Store.failureOf_of_empty rfl, rfl⟩

theorem free_siteOfFiles (entries : List (Path × Entry)) (name : Text)
    (h : KeyPrefix.normalize (some "p") <+: name) :
    (siteOfFiles entries).store.object? "c" name = none := by
  obtain ⟨rest, rfl⟩ := h
  rfl

/-- A file and a link to it, beside a directory, go through a container that holds another object
to a directory that is missing. -/
theorem round_trip_two_files :
    let site := siteOfFiles [(["src", "a"], .file [1]), (["src", "l"], .link "a"),
      (["src", "d"], .directory)]
    let up := upload ⟨2, [], .exact⟩ Site.transport (throughPrefix "/src") .silent site
    let down := download ⟨2, [], .exact⟩ Site.transport (throughPrefix "/dst/new") .silent up.world
    site.files.cwd.IsNormal ∧ site.files.Tree ∧ site.store.IsSound ∧
      site.files.Vacant ["dst", "new"] ["dst", "new"] ∧
      ∃ results', down.outcome = .ok results' ∧ (∀ r ∈ results', r.succeeded = true) ∧
        down.world.files.read "/dst/new/a" = .ok [1] ∧
        down.world.files.read "/dst/new/l" = .ok [1] := by
  intro site up down
  have hcwd : site.files.cwd.IsNormal := by decide +kernel
  have htree : site.files.Tree := by decide +kernel
  have hfault : fault? "c" (.finite 2) (some "p") = none := by decide +kernel
  have hlocate : site.files.locateFor .stat .use (Path.text (Path.resolve site.files.cwd
      (throughPrefix "/src").directory)) = .ok ["src"] := by decide +kernel
  have hsource : site.files.locate .use (Path.text (Path.resolve site.files.cwd
      (throughPrefix "/src").directory)) = .ok ["src"] := by decide +kernel
  obtain ⟨found, hfound⟩ := Enumeration.exists_entries hlocate rfl
  have hvacant : site.files.Vacant (Path.resolve site.files.cwd "/dst/new") ["dst", "new"] := by
    have hway : ∀ q ∈ List.inits (["dst", "new"] : Path),
        site.files.entry? q = none ∨ site.files.entry? q = some .directory := by decide +kernel
    exact .missing (by decide +kernel) (by decide +kernel) (by decide +kernel)
      (fun q hq => hway q ((List.mem_inits _ _).2 hq)) (by decide +kernel)
  have hshort : ∀ path ∈ site.files.entries.keys,
      Files.isOverlong (Path.text ((["src"] : Path) ++ path.drop 1)) = false ∧
        Files.isOverlong (Path.text ((["dst", "new"] : Path) ++ path.drop 1)) = false := by
    decide +kernel
  obtain ⟨results, results', -, hout, -, -, hsucceeded, -, -, hread⟩ :=
    round_trip ⟨2, [], .exact⟩ ⟨2, [], .exact⟩ (throughPrefix "/src") "/dst/new"
      (some (.finite 2)) .silent .silent site found ["src"] ["dst", "new"] hcwd htree hfault rfl
      (isSound_siteOfFiles _) rfl (free_siteOfFiles _) hfound hsource hvacant
      fun name content hfile => by
        obtain ⟨entry, hentry⟩ := hfile.exists_entry?
        exact hshort _ (htree.mem_keys hentry (by simp))
  refine ⟨hcwd, htree, isSound_siteOfFiles _, hvacant, results', hout, hsucceeded, ?_, ?_⟩
  · exact hread "a" [1] (.file rfl)
  · exact hread "l" [1] (.link "a" rfl rfl)

/-- A directory that is missing, under a long path. -/
def farTarget : Path := List.replicate 16 (List.replicate 240 100)

def siteOfLongName : Site := siteOfFiles [(["src", longName], .file [1])]

theorem resolve_farTarget :
    Path.resolve siteOfLongName.files.cwd (Path.text farTarget) = farTarget :=
  Path.resolve_text _ (by decide +kernel)

theorem vacant_farTarget :
    siteOfLongName.files.Vacant (Path.resolve siteOfLongName.files.cwd (Path.text farTarget))
      farTarget := by
  have hway : ∀ q ∈ List.inits farTarget, siteOfLongName.files.entry? q = none ∨
      siteOfLongName.files.entry? q = some .directory := by decide +kernel
  rw [resolve_farTarget]
  exact .missing (by decide +kernel) (by decide +kernel) (by decide +kernel)
    (fun q hq => hway q ((List.mem_inits _ _).2 hq)) (by decide +kernel)

theorem upload_long_name :
    let request := throughPrefix "/src"
    siteOfLongName.files.cwd.IsNormal ∧ siteOfLongName.files.Tree ∧
      fault? request.container (.finite 2) request.keyPrefix = none ∧
      siteOfLongName.files.locate .use (Path.text (Path.resolve siteOfLongName.files.cwd
        request.directory)) = .ok ["src"] ∧
      ∃ found, Enumeration.entries siteOfLongName.files request.directory = .ok found ∧
      ∃ results, Uploaded request ["src"] siteOfLongName
          (upload ⟨2, [], .exact⟩ Site.transport request .silent siteOfLongName).world results ∧
        (upload ⟨2, [], .exact⟩ Site.transport request .silent siteOfLongName).world.store.object?
          "c" (KeyPrefix.normalize (some "p") ++ longName) = some [1] := by
  intro request
  have hcwd : siteOfLongName.files.cwd.IsNormal := by decide +kernel
  have htree : siteOfLongName.files.Tree := by decide +kernel
  have hfault : fault? request.container (.finite 2) request.keyPrefix = none := by decide +kernel
  have hlocate : siteOfLongName.files.locateFor .stat .use (Path.text (Path.resolve
      siteOfLongName.files.cwd request.directory)) = .ok ["src"] := by decide +kernel
  have hsource : siteOfLongName.files.locate .use (Path.text (Path.resolve
      siteOfLongName.files.cwd request.directory)) = .ok ["src"] := by decide +kernel
  obtain ⟨found, hfound⟩ := Enumeration.exists_entries hlocate rfl
  obtain ⟨results, place, -, hplace, huploaded, -⟩ :=
    @uploaded_of_found Unit ⟨2, [], .exact⟩ _ _ found .silent hcwd htree hfault rfl hfound
  obtain rfl : (["src"] : Path) = place := Except.ok.inj (hsource.symm.trans hplace)
  have hfile : siteOfLongName.files.HoldsFile ["src"]
      (Path.resolve siteOfLongName.files.cwd request.directory) longName [1] :=
    .file (by decide +kernel)
  obtain ⟨r, hr, htask⟩ := (huploaded.tasks _).2 ⟨longName, [1], hfile, rfl⟩
  have hsucceeded : r.succeeded = true := by
    rw [huploaded.succeeded r hr, htask]
    exact ⟨(isSound_siteOfFiles _).objects _, by decide +kernel⟩
  have hstored := huploaded.objects r hr hsucceeded longName [1] hfile htask
  rw [htask] at hstored
  exact ⟨hcwd, htree, hfault, hsource, found, hfound, results, huploaded, hstored⟩

/-- A file whose path is overlong only in the destination does not arrive. -/
theorem not_round_trip :
    ¬ ∀ (host : Host) (request : Request) (destination : Text) (site : Site)
      (found : List (Text × Entry)) (source target : Path) (results : List TransferResult),
      site.files.cwd.IsNormal → site.files.Tree →
      fault? request.container (concurrencyOf host request).1 request.keyPrefix = none →
      site.store.IsSound → site.store.creationFailure = none →
      (∀ name, KeyPrefix.normalize request.keyPrefix <+: name →
        site.store.object? request.container name = none) →
      Enumeration.entries site.files request.directory = .ok found →
      site.files.locate .use (Path.text (Path.resolve site.files.cwd request.directory)) =
        .ok source →
      site.files.Vacant (Path.resolve site.files.cwd destination) target →
      (download host Site.transport { request with directory := destination } .silent
        (upload host Site.transport request .silent site).world).outcome = .ok results →
      ∀ r ∈ results, r.succeeded = true := by
  intro h
  let back : Request := throughPrefix (Path.text farTarget)
  obtain ⟨hcwd, htree, hfault, hsource, found, hfound, stored, huploaded, hobject⟩ :=
    upload_long_name
  generalize hup : (upload ⟨2, [], .exact⟩ Site.transport (throughPrefix "/src") .silent
    siteOfLongName).world = middle at huploaded hobject
  have hfiles : middle.files = siteOfLongName.files := huploaded.files
  obtain ⟨hsound, hthere⟩ := huploaded.isSound (isSound_siteOfFiles _)
  -- The file is listed, and its task cannot succeed.
  obtain ⟨names, hlist, hnames⟩ : ∃ names,
      (listed Site.transport back middle).outcome = .ok names ∧ ∀ name, name ∈ names ↔
        KeyPrefix.normalize (some "p") <+: name ∧
          ∃ content, middle.store.object? "c" name = some content :=
    Store.exists_list hsound.listing hthere _
  obtain ⟨results, done, hout, htasks, hdone, hkept⟩ :=
    @download_kept Unit ⟨2, [], .exact⟩ back middle names _ .silent hfault hlist
      (kept_short fun _ => exists_path_of_mem_listedTasks (hfiles ▸ hcwd)) (by simp)
  have hname : Path.IsName longName := by decide +kernel
  have hmem : fileTask "c" (Path.resolve middle.files.cwd (Path.text farTarget))
      (KeyPrefix.normalize (some "p")) longName ∈ results.map TransferResult.task := by
    rw [htasks, listedTasks, Enumeration.mem_ofNames_iff]
    exact ⟨_, (hnames _).2 ⟨List.prefix_append _ _, [1], hobject⟩, isFolderMarker_append hname,
      (downloadTask_append hname).symm⟩
  obtain ⟨r, hr, htask⟩ := List.mem_map.1 hmem
  have hsucceeded := h ⟨2, [], .exact⟩ (throughPrefix "/src") (Path.text farTarget) siteOfLongName
    found ["src"] farTarget results hcwd htree hfault (isSound_siteOfFiles _) rfl
    (free_siteOfFiles _) hfound hsource vacant_farTarget (hup ▸ hout) r hr
  have hshort := hkept r ((hdone r).1 hr) hsucceeded
  rw [htask, fileTask, hfiles, resolve_farTarget] at hshort
  exact absurd hshort (by decide +kernel)

end Transfer

end BulkTransfer
