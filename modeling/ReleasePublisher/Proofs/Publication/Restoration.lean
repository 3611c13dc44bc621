import ReleasePublisher.Proofs.Publication.Configuration
import ReleasePublisher.Proofs.Publication.Steps

/-!
The configuration file after a debug run. However the run ends, the content that was there before is
written back when the builds are over, and giving the lock back does not reach it.
-/
namespace ReleasePublisher

namespace Publication

open FileSystem

/-- What is left of a file after a run: the path led to it when the lock was given back, and its
content is still there. The path itself leads there still, unless it goes through the directory of
the lock, which went with the lock. -/
structure Restored (root path : Path) (saved : Bytes) (ended final : FileSystem) : Prop where
  content_eq : ∃ l face, ended.place .follow path = .ok (.taken l) ∧
    final.face? l = some face ∧ face.content? = some saved
  read_eq : final.read path = .ok saved ∨ ∃ d ∈ ended.trail .follow path,
    ended.place .keep (RunLock.directoryIn root) = .ok (.taken d) ∧ final.face? d = none

/-- Giving the lock back leaves a file that is apart from it. -/
theorem restored_of_released {root path : Path} {saved : Bytes} {ended final : FileSystem}
    {moments : List Moment} (h : RunLock.Released root ended moments final)
    (hread : ended.read path = .ok saved) (hapart : RunLock.Apart root path ended) :
    Restored root path saved ended final := by
  obtain ⟨l, face, hplace, hface, hcontent⟩ := read_eq_ok_iff.mp hread
  obtain @⟨first, second, middle, _, hremove, htidy⟩ := h
  obtain ⟨hplace', htrail', hface'⟩ := hapart.place_removed hremove hplace
  rw [← hface'] at hface
  cases htidy with
  | failed step =>
    constructor
    · exact ⟨l, face, hplace, hface, hcontent⟩
    · exact Or.inl (read_eq_ok_iff.mpr ⟨l, face, hplace', hface, hcontent⟩)
  | done step =>
    obtain ⟨d, attributes, hd, hat, rfl⟩ := erase_of_removeDirectory step
    have hchanges := changesOnly_erase hat (Node.isBare_directory_nil attributes)
    have hne : l ≠ d := by
      rintro rfl
      rw [face?_eq_some_iff.mpr ⟨_, hat, rfl⟩, Option.some.injEq] at hface
      simp [← hface, Face.content?] at hcontent
    have hkept : (middle.erase d).face? l = some face :=
      (hchanges.face?_eq l hne).trans hface
    constructor
    · exact ⟨l, face, hplace, hkept, hcontent⟩
    -- the path itself is lost only if it passes the directory that is gone
    · by_cases hmem : d ∈ ended.trail .follow path
      · right
        have hroot : d ≠ [] := by
          obtain ⟨front, rfl⟩ := exists_eq_concat_of_place RunLock.isEntry_directoryName hd
          simp
        exact ⟨d, hmem, RunLock.directory_of_removed hremove hd, face?_erase_self hroot⟩
      · left
        have hbeside : d ∉ middle.trail .follow path := htrail' ▸ hmem
        obtain ⟨hplace'', -, -⟩ := hchanges.keeps.place_taken hplace' hbeside
        exact read_eq_ok_iff.mpr ⟨l, face, hplace'', hkept, hcontent⟩

/-- What the calls of a run may do to a file: builds leave it so that `saved` can be written there,
pushes leave it alone, and neither makes it the lock file. -/
structure Undisturbed (root path : Path) (saved : Bytes) (exchanges : List Exchange) : Prop where
  apart : ∀ e ∈ exchanges, RunLock.Apart root path e.after
  at_build : ∀ e ∈ exchanges, ∀ step, e.call = .build step →
    ∃ disk, e.after.write path saved = .ok disk
  at_push : ∀ e ∈ exchanges, ∀ image, e.call = .push image →
    e.after.read path = e.before.read path

/-- However a debug run that gets the lock ends, the configuration file holds what it held before. -/
theorem run_restores {σ : Type} (palette : Palette) (engine : Engine σ) (owner : LockOwner)
    (project : Project) (plan : Plan) (state : σ) (fs : FileSystem) {saved : Bytes}
    {lock : RunLock} {locked : Site} (hmode : plan.mode = .debug)
    (hread : fs.read project.configPath = .ok saved)
    (hacquire : RunLock.acquire owner project.root { disk := fs } = (.ok lock, locked))
    (hapart : RunLock.Apart project.root project.configPath (RunLock.entered project.root fs))
    (hcalls : Undisturbed project.root project.configPath saved
      (run palette engine owner project plan state { disk := fs }).site.exchanges) :
    Restored project.root project.configPath saved
      (execute palette engine project plan state locked).site.disk
      (run palette engine owner project plan state { disk := fs }).site.disk := by
  obtain ⟨hroot, htouched, -, disks, hdisks, -⟩ := RunLock.acquire_ok hacquire
  obtain ⟨steps, moments, hexecuted, hreleased, -, hhistory⟩ :=
    exists_run palette engine project plan owner hacquire (by rw [hroot])
  rw [exchanges_run ⟨disks, hdisks⟩ hreleased hhistory] at hcalls
  have hlocked := htouched.read_eq hapart hread
  have hapart' : RunLock.Apart project.root project.configPath locked.disk := by
    refine RunLock.Apart.locked ?_ hacquire project.isAbsolute_configPath
    exact hapart
  have hended := hexecuted.read_eq hmode hlocked
    (fun e he step hstep => ⟨saved, hcalls.at_build e he step hstep⟩) hcalls.at_push
  obtain ⟨hapart'', -⟩ := hexecuted.invariant
    (RunLock.Apart project.root project.configPath) hapart'
    (fun _ _ _ _ hbefore hwritten => hbefore.written hwritten)
    (fun e he _ => hcalls.apart e he)
  exact restored_of_released hreleased hended hapart''

end Publication

namespace Sample

def isPush : EngineCall → Bool
  | .build _ => false
  | .push _ => true

/-- The first build empties the configuration file, the second one takes it away, and the last push
never ends. -/
def lastPushAbandoned : Script :=
  [(act (·.write configPath []), .succeeded), (act (·.removeFile configPath), .succeeded),
    (id, .succeeded), (id, .succeeded), (id, .abandoned)]

end Sample

namespace Publication

/-- The file has been taken away when the run is dropped in its last push. -/
theorem run_restores_last_push_abandoned :
    let project := Sample.project "Cargo.toml"
    let locked := (RunLock.acquire Sample.owner project.root { disk := Sample.disk [] }).2
    let outcome := Sample.run project .debug [] Sample.lastPushAbandoned
    (Sample.plan .debug).mode = .debug ∧
      (Sample.disk []).read project.configPath = .ok Sample.content ∧
      RunLock.acquire Sample.owner project.root { disk := Sample.disk [] } =
        (.ok ⟨project.root⟩, locked) ∧
      RunLock.Apart project.root project.configPath
        (RunLock.entered project.root (Sample.disk [])) ∧
      Undisturbed project.root project.configPath Sample.content outcome.site.exchanges ∧
      outcome.result = .abandoned ∧ outcome.site.exchanges.length = 5 ∧
      Restored project.root project.configPath Sample.content
        (execute .plain Sample.engine project (Sample.plan .debug) Sample.lastPushAbandoned
          locked).site.disk outcome.site.disk := by
  intro project locked outcome
  have hcalls : ∀ e ∈ outcome.site.exchanges,
      RunLock.Apart project.root project.configPath e.after ∧
        (e.after.write project.configPath Sample.content).toOption.isSome ∧
        (Sample.isPush e.call → (e.before.read project.configPath).toOption =
          (e.after.read project.configPath).toOption ∧
            (e.after.read project.configPath).toOption = some Sample.content) := by
    decide +kernel
  have hundisturbed : Undisturbed project.root project.configPath Sample.content
      outcome.site.exchanges := by
    constructor
    · intro e he
      exact (hcalls e he).1
    · intro e he step hcall
      obtain ⟨disk, hdisk⟩ := Option.isSome_iff_exists.mp (hcalls e he).2.1
      exact ⟨disk, eq_ok_of_toOption hdisk⟩
    · intro e he image hcall
      obtain ⟨hsame, hread⟩ := (hcalls e he).2.2 (by rw [hcall]; rfl)
      rw [eq_ok_of_toOption hread, eq_ok_of_toOption (hsame.trans hread)]
  exact ⟨rfl, Sample.read_eq, Sample.acquire_eq, Sample.apart, hundisturbed, by decide +kernel,
    by decide +kernel,
    run_restores .plain Sample.engine Sample.owner project (Sample.plan .debug) _
      (Sample.disk []) rfl Sample.read_eq Sample.acquire_eq Sample.apart hundisturbed⟩

end Publication

end ReleasePublisher
