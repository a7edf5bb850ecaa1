import BulkTransfer.Proofs.Files.Straight
import BulkTransfer.Proofs.Transfer.Operations

/-!
# Where a download writes

The paths of a download are checked as texts, without looking at links.  So a regular file that a
download creates or changes is one that a successful task's path leads to, and it lies strictly
inside the place of the destination unless the task's path goes over a link below the destination
(`download_contains`).  Such a link may lead anywhere (`not_download_contains`).
-/

namespace BulkTransfer

namespace Transfer

/-- Files came from others by making directories and writing at places to which the paths of
successful tasks lead, which go on below the destination. -/
structure WrittenBelow (destination : Path) (before now : Site) (results : List TransferResult) :
    Prop where
  closed : now.files.Closed
  builds : Files.Builds (fun _ => True)
    (fun place => ∃ r ∈ results, r.succeeded = true ∧ ∃ below name,
      Path.IsNormal (destination ++ below ++ [name]) ∧
        r.task.localPath = Path.text (destination ++ below ++ [name]) ∧
        now.files.Opens (destination ++ below) name place)
    before.files now.files

namespace WrittenBelow

variable {destination : Path} {before now next : Site} {results : List TransferResult}

theorem congr (h : WrittenBelow destination before now results) (hfiles : next.files = now.files) :
    WrittenBelow destination before next results :=
  ⟨hfiles ▸ h.closed, hfiles ▸ h.builds⟩

/-- One more result, after files were built at places that its task accounts for. -/
theorem add {r : TransferResult} (h : WrittenBelow destination before now results)
    {written : Path → Prop}
    (hbuilds : Files.Builds (fun _ => True) written now.files next.files)
    (hclosed : next.files.Closed)
    (hwritten : ∀ place, written place → r.succeeded = true ∧ ∃ below name,
      Path.IsNormal (destination ++ below ++ [name]) ∧
        r.task.localPath = Path.text (destination ++ below ++ [name]) ∧
        next.files.Opens (destination ++ below) name place) :
    WrittenBelow destination before next (results ++ [r]) := by
  refine ⟨hclosed, .trans (h.builds.mono (fun _ => id) ?_) (hbuilds.mono (fun _ => id) ?_)⟩
  · rintro place ⟨s, hs, hss, below, name, hnormal, hpath, hopens⟩
    exact ⟨s, List.mem_append_left _ hs, hss, below, name, hnormal, hpath, hopens.builds hbuilds⟩
  · intro place hplace
    obtain ⟨hsucceeded, hopens⟩ := hwritten place hplace
    exact ⟨r, by simp, hsucceeded, hopens⟩

theorem fail (h : WrittenBelow destination before now results) (r : TransferResult) :
    WrittenBelow destination before now (results ++ [r]) :=
  h.add (.refl _ (fun _ => False) _) h.closed fun _ => False.elim

end WrittenBelow

/-- The fetches of a download write at places to which the paths of their tasks lead. -/
theorem kept_writtenBelow {cwd : Path} (hcwd : cwd.IsNormal) (destination : Text)
    {tasks : List Task} (htasks : AreListed tasks) (before : Site) :
    Site.Kept .download (batchRefusal cwd destination tasks) tasks
      (WrittenBelow (Path.resolve cwd destination) before) where
  congr := fun hsame h => h.congr hsame.files
  refused := fun _ _ h _ => h.fail _
  done := fun {task s results} htask hr h duration => by
    obtain ⟨below, name, hnormal, hpath⟩ := exists_below_of_not_refused hcwd htasks htask hr
    have hwork : Site.work .download task s = Site.fetchFile task s := rfl
    rw [hwork]
    cases hf : s.store.failureOf task.objectName with
    | some error =>
      rw [Site.fetchFile_of_failure hf]
      exact h.fail _
    | none =>
      cases ho : s.objectOf task with
      | none =>
        rw [Site.fetchFile_of_no_object hf ho]
        exact h.fail _
      | some content =>
        rw [Site.fetchFile_of_object hf ho, hpath]
        cases hw : s.files.writeUnder
            (Path.text (Path.resolve cwd destination ++ below ++ [name])) content with
        | mk outcome files =>
          cases outcome with
          | error e =>
            obtain ⟨hbuilds, hclosed⟩ := Files.of_writeUnder_error (fun _ => False) hw
            exact h.add hbuilds (hclosed h.closed) fun _ => False.elim
          | ok _ =>
            obtain ⟨place, hopens, hbuilds, hclosed⟩ := Files.of_writeUnder hnormal h.closed hw
            refine h.add hbuilds hclosed ?_
            rintro _ rfl
            exact ⟨rfl, below, name, hnormal, hpath, hopens⟩

/-! ## Whole downloads -/

variable {τ : Type}

/-- A regular file that a download over a store in memory creates or changes is one to which the
path of a successful task leads.  It lies strictly inside the place of the destination, or the
task's path goes over a link that stands below the destination. -/
theorem download_contains (host : Host) (request : Request) (observer : Observer τ) (site : Site)
    (hcwd : site.files.cwd.IsNormal) (hclosed : site.files.Closed) (path : Path) (content : Bytes)
    (hafter : (download host Site.transport request observer site).world.files.entry? path =
      some (.file content))
    (hbefore : site.files.entry? path ≠ some (.file content)) :
    let ran := download host Site.transport request observer site
    let destination := Path.resolve site.files.cwd request.directory
    ∃ results, ran.outcome = .ok results ∧ ∃ r ∈ results, r.succeeded = true ∧
      ran.world.files.locate .use r.task.localPath = .ok path ∧
      ∃ root, ran.world.files.locate .use (Path.text destination) = .ok root ∧
        (Path.Inside root path ∨ ∃ below target, below ≠ [] ∧
          destination.map Text.stored ++ below <+: placeOf site r.task ∧
          site.files.entry? (root ++ below) = some (.link target)) := by
  intro ran destination
  rcases download_cases host request observer site with ⟨names, hfault, hlist⟩ | hsame
  swap
  · rw [hsame.files] at hafter
    exact absurd hafter hbefore
  obtain ⟨results, done, hout, -, hmem, hwritten⟩ := download_kept observer hfault hlist
    (kept_writtenBelow hcwd request.directory (areListed_listedTasks hcwd request names) site)
    ⟨hclosed, .refl _ _ _⟩
  obtain ⟨r, hr, hsucceeded, below, name, hnormal, hpath, hopens⟩ :=
    hwritten.builds.written_of_file hafter hbefore
  obtain ⟨left, hfollow⟩ := hopens.follow
  obtain ⟨n, hn, middle, hleads⟩ := hopens.leads
  rw [List.map_append] at hleads
  obtain ⟨m, k, root, hroot, -, rfl⟩ := hleads.exists_of_append
  have hfits : Files.Fits destination :=
    Files.Fits.of_append (List.append_assoc destination below [name] ▸ hopens.fits)
  refine ⟨results, hout, r, (hmem r).2 hr, hsucceeded, ?_, root, ?_, ?_⟩
  · rw [hpath]
    exact (Files.locate_eq_ok_iff hnormal).2 ⟨hopens.fits.short, left, Files.follow_use hfollow⟩
  · have hdestination : destination.IsNormal := Path.isNormal_resolve hcwd _
    have hfuel : Files.linkLimit + 1 = m + (Files.linkLimit - m) + 1 := by omega
    exact (Files.locate_eq_ok_iff hdestination).2 ⟨hfits.short, _, hfuel ▸ hroot.follow _⟩
  have hway : (destination ++ below ++ [name]).map Text.stored =
      destination.map Text.stored ++ (below ++ [name]).map Text.stored := by
    rw [List.append_assoc, List.map_append]
  -- From the destination's place on, the path goes straight down unless it meets a link.
  by_cases hstraight : ran.world.files.Straight root ((below ++ [name]).map Text.stored)
  · left
    have hnames : Path.IsNormal (below ++ [name]) := fun other hother =>
      hnormal other (by rw [List.append_assoc]; exact List.mem_append_right _ hother)
    have hmake : Files.Aim.make = .make → Files.HasName ((below ++ [name]).map Text.stored) :=
      fun _ => by simp [Files.HasName, Text.stored_ne_nil (hnames name (by simp)).ne_nil]
    have hfuel : Files.linkLimit + 1 = m + (Files.linkLimit + 1 - m) := by omega
    have hrest := hroot.follow_append hmake (Files.linkLimit + 1 - m)
    rw [← hfuel, ← hway, hfollow] at hrest
    rw [Files.eq_append_of_follow hnames.stored hstraight hrest.symm]
    exact ⟨List.prefix_append _ _, by simp⟩
  · right
    simp only [Files.Straight, not_forall, not_not] at hstraight
    obtain ⟨q, hq, hne, target, hlink⟩ := hstraight
    refine ⟨q, target, hne, ?_, hwritten.builds.link_iff.1 hlink⟩
    rw [placeOf, hpath, Files.standing_text _ hnormal, hway]
    exact (List.prefix_append_right_inj _).2 hq

/-- A destination in which a link leads to a directory elsewhere. -/
def leadingOut : Site :=
  ⟨⟨.ofList [("c", .ofList [("out/x", [1])])], .empty, none, none, 1, .empty, [], 0, 0⟩,
    ⟨["work"], .ofList [(["work"], .directory), (["away"], .directory), (["dst"], .directory),
      (["dst", "out"], .link "/away")]⟩⟩

def intoLinked : Request := ⟨"c", "/dst", some (.finite 1), none⟩

theorem closed_leadingOut : leadingOut.files.Closed :=
  Files.closed_of_entries (by decide +kernel)

/-- The download into the linked directory. -/
def ranLinked : Ran Site (List TransferResult) :=
  download ⟨2, [], .exact⟩ Site.transport intoLinked .silent leadingOut

theorem of_ranLinked :
    ranLinked.world.files.entry? ["away", "x"] = some (.file [1]) ∧
      ranLinked.world.files.locate .use (Path.text ["dst"]) = .ok ["dst"] := by
  let task : Task := ⟨"c", "out/x", Path.text ["dst", "out", "x"], .download⟩
  have htasks : listedTasks ["work"] intoLinked ["out/x"] = [task] := List.mergeSort_singleton _
  have hjobs : listedJobs Site.transport ["work"] intoLinked ["out/x"] =
      [task].map (downloadJob Site.transport ["work"] intoLinked.directory
        (Collisions.find ["work"] [task])) := by
    rw [listedJobs, htasks]
  have hfault : fault? intoLinked.container (concurrencyOf ⟨2, [], .exact⟩ intoLinked).1
      intoLinked.keyPrefix = none := by decide +kernel
  have hlist : (listed Site.transport intoLinked leadingOut).outcome = .ok ["out/x"] := rfl
  have hworld : ranLinked.world =
      (Dispatch.run .exact (listedJobs Site.transport ["work"] intoLinked ["out/x"])
        (concurrencyOf ⟨2, [], .exact⟩ intoLinked).1 .silent
        (listed Site.transport intoLinked leadingOut).world).world :=
    (download_of_listed .silent hfault hlist).2
  rw [hworld, hjobs]
  decide +kernel

/-- The file that the link leads a download to is one of a path that goes over this link. -/
theorem download_contains_linked :
    leadingOut.files.cwd.IsNormal ∧ leadingOut.files.Closed ∧
      ranLinked.world.files.entry? ["away", "x"] = some (.file [1]) ∧
      leadingOut.files.entry? ["away", "x"] ≠ some (.file [1]) ∧
      ∃ results, ranLinked.outcome = .ok results ∧ ∃ r ∈ results, r.succeeded = true ∧
        ranLinked.world.files.locate .use r.task.localPath = .ok ["away", "x"] ∧
        ∃ root, ranLinked.world.files.locate .use (Path.text ["dst"]) = .ok root ∧
          (Path.Inside root ["away", "x"] ∨ ∃ below target, below ≠ [] ∧
            (["dst"] : Path) ++ below <+: placeOf leadingOut r.task ∧
            leadingOut.files.entry? (root ++ below) = some (.link target)) := by
  have hcwd : leadingOut.files.cwd.IsNormal := by decide +kernel
  have hbefore : leadingOut.files.entry? ["away", "x"] ≠ some (.file [1]) := by decide +kernel
  exact ⟨hcwd, closed_leadingOut, of_ranLinked.1, hbefore,
    download_contains ⟨2, [], .exact⟩ intoLinked .silent leadingOut hcwd closed_leadingOut
      ["away", "x"] [1] of_ranLinked.1 hbefore⟩

/-- A download may create a file outside the place of its destination. -/
theorem not_download_contains :
    ¬ ∀ (host : Host) (request : Request) (site : Site) (path root : Path) (content : Bytes),
      site.files.cwd.IsNormal → site.files.Closed →
      let ran := download host Site.transport request .silent site
      ran.world.files.entry? path = some (.file content) →
      site.files.entry? path ≠ some (.file content) →
      ran.world.files.locate .use (Path.text (Path.resolve site.files.cwd request.directory)) =
        .ok root → Path.Inside root path := by
  intro h
  have hinside := h ⟨2, [], .exact⟩ intoLinked leadingOut ["away", "x"] ["dst"] [1]
    (by decide +kernel) closed_leadingOut of_ranLinked.1 (by decide +kernel) of_ranLinked.2
  exact absurd hinside.1 (by decide +kernel)

end Transfer

end BulkTransfer
