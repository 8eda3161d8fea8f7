import Bowfolio.Creation.Clients
import Bowfolio.Store.Schema
import Bowfolio.Swift.Text

/-!
# Project names in profiles

A profile refers to projects by name. The profile editor only writes names that its app
has seen, and a project document is never removed or renamed. But Done in the project form
adds the name to the participants' profiles before it stores the project, and an app sees
the projects it has issued itself before the server has them. The references stay intact
in every run whose creations select no participant or repeat a known name, and in which no
write takes effect that lists a project whose creation has failed
(`references_exist_of_run`).
-/

namespace Bowfolio

variable {Image : Type} {lowercased : String → String}

/-! ## What one client knows -/

/-- Everything that the app has loaded, edits or uploads refers to known names only. -/
structure Client.Mentions (known : String → Prop) (client : Client Image) : Prop where
  profiles : ∀ profile ∈ client.profiles, ∀ name ∈ profile.projects, known name
  projects : ∀ project ∈ client.projects, known project.name
  profile : ∀ name ∈ client.profile.projects, known name
  editor : ∀ view ∈ client.editor, ∀ name ∈ view.profile.projects, known name
  uploads : ∀ upload ∈ client.uploads, ∀ name ∈ upload.view.profile.projects, known name

/-- The client knows a name that some project has, that it is creating, or whose creation
has failed. -/
def Client.Knows (exist : String → Prop) (client : Client Image) (name : String) : Prop :=
  (exist name ∨ name ∈ client.lost) ∨ name ∈ client.creating

/-- What the client has received and what is acknowledged later refers to existing
projects; the writes in its queue and its app refer to names that it knows. -/
structure Client.Refers (exist : String → Prop) (names : String → Option String)
    (client : Client Image) : Prop where
  cachedProfiles : ∀ email doc, client.cache.content .profiles email = some doc →
    ∀ name ∈ doc.elements "projects", exist name
  cachedProjects : ∀ id doc name, client.cache.content .projects id = some doc →
    doc "name" = some (.string name) → exist name
  unacknowledged : ∀ write ∈ client.unacknowledged,
    write.Harmless exist names ∧ ∀ name ∈ write.created, exist name
  queue : Issues names (fun name => exist name ∨ name ∈ client.lost) client.queue
  app : client.Mentions (client.Knows exist)

namespace Client.Mentions

variable {known more : String → Prop} {client : Client Image}

theorem launch (uuid : String) : (Client.launch uuid : Client Image).Mentions known where
  profiles := nofun
  projects := nofun
  profile := nofun
  editor := nofun
  uploads := nofun

theorem mono (mentions : client.Mentions known) (wider : ∀ name, known name → more name) :
    client.Mentions more where
  profiles := fun profile loaded name member =>
    wider name (mentions.profiles profile loaded name member)
  projects := fun project loaded => wider _ (mentions.projects project loaded)
  profile := fun name member => wider name (mentions.profile name member)
  editor := fun view shown name member => wider name (mentions.editor view shown name member)
  uploads := fun upload pending name member =>
    wider name (mentions.uploads upload pending name member)

/-- A change of the form selects names that are selected already or loaded. -/
theorem edit (mentions : client.Mentions known) {view : EditProfileView Image}
    {change : ProfileEdit} (shown : client.editor = some view)
    (offered : client.Offers view change) :
    ∀ name ∈ (view.edit change).profile.projects, known name := by
  cases change with
  | projects selectedArray =>
      intro name member
      rcases offered name member with selected | loaded
      · exact mentions.editor view shown name selected
      · obtain ⟨project, listed, rfl⟩ := List.mem_map.mp loaded
        exact mentions.projects project listed
  | firstName | lastName | title | bio | interests => exact mentions.editor view shown

end Client.Mentions

/-- The write that takes effect is the oldest of the queue. -/
theorem Client.head?_of_send {client next : Client Image} {db : Database} {write : Write}
    (sent : client.send db = some (write, next)) : client.queue.head? = some write := by
  unfold Client.send at sent
  cases queued : client.queue with
  | nil =>
      rw [queued] at sent
      exact nomatch sent
  | cons first rest =>
      rw [queued] at sent
      cases (Option.ite_none_right_eq_some.mp sent).2
      rfl

namespace Client.Refers

variable {exist more : String → Prop} {names later : String → Option String}
  {client next : Client Image}

theorem launch (uuid : String) : (Client.launch uuid : Client Image).Refers exist names where
  cachedProfiles := fun _ _ present => nomatch present
  cachedProjects := fun _ _ _ present => nomatch present
  unacknowledged := nofun
  queue := trivial
  app := .launch uuid

theorem mono (refers : client.Refers exist names) (wider : ∀ name, exist name → more name)
    (kept : ∀ id name, names id = some name → later id = some name) :
    client.Refers more later where
  cachedProfiles := fun email doc present name member =>
    wider name (refers.cachedProfiles email doc present name member)
  cachedProjects := fun id doc name present named =>
    wider name (refers.cachedProjects id doc name present named)
  unacknowledged := fun write sent =>
    ⟨(refers.unacknowledged write sent).1.mono (fun name _ => wider name) kept,
      fun name created => wider name ((refers.unacknowledged write sent).2 name created)⟩
  queue := refers.queue.mono (fun name => Or.imp_left (wider name)) kept
  app := refers.app.mono fun name => Or.imp_left (Or.imp_left (wider name))

/-- The names that the profiles show to the client's listeners. -/
theorem knows_listed (refers : client.Refers exist names) {email name : String} {doc : Document}
    (present : client.shown.content .profiles email = some doc)
    (member : name ∈ doc.elements "projects") : client.Knows exist name := by
  rcases Database.listed_commitAll present member with
    ⟨old, cached, held⟩ | ⟨write, pending, listed⟩
  · exact .inl (.inl (refers.cachedProfiles email old cached name held))
  · rcases List.mem_append.mp pending with sent | queued
    · exact .inl (.inl ((refers.unacknowledged write sent).1.profile name listed))
    · exact (refers.queue.harmless write queued).profile name listed

/-- The names of the projects that the client's listeners show. -/
theorem knows_named (refers : client.Refers exist names) {id name : String} {doc : Document}
    (present : client.shown.content .projects id = some doc)
    (named : doc "name" = some (.string name)) : client.Knows exist name := by
  have harmless : ∀ write ∈ client.unacknowledged ++ client.queue,
      ∃ known, write.Harmless known names := by
    intro write pending
    rcases List.mem_append.mp pending with sent | queued
    · exact ⟨_, (refers.unacknowledged write sent).1⟩
    · exact ⟨_, refers.queue.harmless write queued⟩
  rcases Database.named_commitAll harmless present named with
    ⟨old, cached, held⟩ | ⟨write, pending, created⟩
  · exact .inl (.inl (refers.cachedProjects id old name cached held))
  · rcases List.mem_append.mp pending with sent | queued
    · exact .inl (.inl ((refers.unacknowledged write sent).2 name created))
    · exact .inr (List.mem_filterMap.mpr ⟨write, queued, created⟩)

/-- The app changes, and Firestore's part of the client does not. -/
theorem with_app (refers : client.Refers exist names) {profiles : List Profile}
    {projects : List Project} {profile : Profile} {editor : Option (EditProfileView Image)}
    {uploads : List (ProfileUpload Image)}
    (app : Mentions (client.Knows exist)
      { client with profiles, projects, profile, editor, uploads }) :
    Refers exist names { client with profiles, projects, profile, editor, uploads } :=
  ⟨refers.cachedProfiles, refers.cachedProjects, refers.unacknowledged, refers.queue, app⟩

/-- Writes with known names join the queue. -/
theorem enqueue (refers : client.Refers exist names) {writes : List Write}
    (issues : Issues names (client.Knows exist) writes) :
    Refers exist names { client with queue := client.queue ++ writes } where
  cachedProfiles := refers.cachedProfiles
  cachedProjects := refers.cachedProjects
  unacknowledged := refers.unacknowledged
  queue := Issues.append_iff.mpr ⟨refers.queue, issues⟩
  app := by
    have wider (name : String) (knows : client.Knows exist name) :
        Knows exist { client with queue := client.queue ++ writes } name := by
      refine knows.imp_right fun created => ?_
      unfold creating
      rw [List.filterMap_append]
      exact List.mem_append_left _ created
    have app := refers.app.mono wider
    exact ⟨app.profiles, app.projects, app.profile, app.editor, app.uploads⟩

/-- One write with known names joins the queue. -/
theorem enqueue_one (refers : client.Refers exist names) {write : Write}
    (harmless : write.Harmless (client.Knows exist) names) :
    Refers exist names { client with queue := client.queue ++ [write] } :=
  refers.enqueue ⟨harmless, trivial⟩

/-- The requests of the profile editor about a profile with known names. -/
theorem perform (refers : client.Refers exist names) {profile : Profile}
    {effects : List (ProfileEffect Image)}
    (own : ∀ name ∈ profile.projects, client.Knows exist name)
    (uploads : ∀ upload ∈ ProfileEffect.uploads effects, upload.view.profile = profile)
    (writes : ProfileEffect.writes effects = [ProfilesViewModel.updateProfile profile]) :
    (client.perform effects).Refers exist names := by
  have started : Mentions (client.Knows exist)
      { client with uploads := client.uploads ++ ProfileEffect.uploads effects } := by
    refine ⟨refers.app.profiles, refers.app.projects, refers.app.profile, refers.app.editor, ?_⟩
    intro upload member
    rcases List.mem_append.mp member with earlier | started
    · exact refers.app.uploads upload earlier
    · rw [uploads upload started]
      exact own
  rw [Client.perform, writes]
  exact (refers.with_app started).enqueue_one (.updateProfile own)

/-- A document of the server arrives. -/
theorem receive {db : Database} (refers : client.Refers db.ProjectExists names)
    (references : db.ReferencesExist) (collection : CollectionName) (document : String) :
    (client.receive db collection document).Refers db.ProjectExists names := by
  unfold Client.receive
  cases stored : db.content collection document with
  | none => exact refers
  | some doc =>
      have app := refers.app
      refine ⟨fun email other present name member => ?_, fun id other name present named => ?_,
        refers.unacknowledged, refers.queue,
        ⟨app.profiles, app.projects, app.profile, app.editor, app.uploads⟩⟩
      · rcases Database.content_commit_cases _ _ present with cached | ⟨rfl, rfl, applied⟩
        · exact refers.cachedProfiles email other cached name member
        · cases applied
          exact references _ _ stored name member
      · rcases Database.content_commit_cases _ _ present with cached | ⟨rfl, rfl, applied⟩
        · exact refers.cachedProjects id other name cached named
        · cases applied
          exact ⟨_, _, stored, named⟩

/-- A snapshot of profiles lists known names. -/
theorem profilesSnapshot (refers : client.Refers exist names) (uuids : Nat → String) :
    Refers exist names { client with
      profiles := ProfilesViewModel.fetchData uuids (client.shown .profiles).entries } := by
  refine refers.with_app ⟨?_, refers.app.projects, refers.app.profile, refers.app.editor,
    refers.app.uploads⟩
  intro profile loaded name member
  obtain ⟨uuid, ⟨email, doc⟩, listed, decoded⟩ := mem_fetchData loaded
  have present : client.shown.content .profiles email = some doc :=
    (client.shown .profiles).get?_eq_some_iff.mpr listed
  have stored := (Profile.decode_eq_ok_iff.mp decoded).2
  exact refers.knows_listed present (stored.elements_projects ▸ member)

/-- A snapshot of projects lists known names. -/
theorem projectsSnapshot (refers : client.Refers exist names) (uuids : Nat → String) :
    Refers exist names { client with
      projects := ProjectsViewModel.fetchData uuids (client.shown .projects).entries } := by
  refine refers.with_app ⟨refers.app.profiles, ?_, refers.app.profile, refers.app.editor,
    refers.app.uploads⟩
  intro project loaded
  obtain ⟨uuid, ⟨id, doc⟩, listed, decoded⟩ := mem_fetchData loaded
  have present : client.shown.content .projects id = some doc :=
    (client.shown .projects).get?_eq_some_iff.mpr listed
  exact refers.knows_named present
    (Project.storedIn_iff.mp (Project.decode_eq_ok_iff.mp decoded).2).1

/-- What happens inside the app keeps to names that it knows. -/
theorem step {db : Database} (refers : client.Refers db.ProjectExists names)
    (references : db.ReferencesExist) {event : ClientEvent Image}
    (stepped : client.step lowercased db event = some next) :
    next.Refers db.ProjectExists names := by
  obtain ⟨profiles, projects, profile, editor, uploads⟩ := refers.app
  cases event with
  | receive collection document =>
      cases stepped
      exact refers.receive references collection document
  | profilesSnapshot uuids =>
      cases stepped
      exact refers.profilesSnapshot uuids
  | projectsSnapshot uuids =>
      cases stepped
      exact refers.projectsSnapshot uuids
  | tapMyProfile currentUser =>
      cases stepped
      have own : ∀ name ∈ (userProfile lowercased client.profiles currentUser
          client.profile).projects, client.Knows db.ProjectExists name := by
        rcases List.mem_cons.mp (userProfile_mem lowercased client.profiles currentUser
          client.profile) with held | loaded
        · rw [held]
          exact profile
        · exact profiles _ loaded
      refine refers.with_app ⟨profiles, projects, own, ?_, uploads⟩
      rintro _ ⟨⟩
      exact own
  | edit change =>
      obtain ⟨view, shown, accepted⟩ := Option.bind_eq_some_iff.mp stepped
      obtain ⟨offered, same⟩ := Option.ite_none_right_eq_some.mp accepted
      cases same
      refine refers.with_app ⟨profiles, projects, profile, ?_, uploads⟩
      rintro _ ⟨⟩
      exact refers.app.edit shown offered
  | loadImage inputImage =>
      obtain ⟨view, shown, rfl⟩ := Option.map_eq_some_iff.mp stepped
      refine refers.with_app ⟨profiles, projects, profile, ?_, uploads⟩
      rintro _ ⟨⟩
      exact editor view shown
  | handleCancelTapped =>
      obtain ⟨_, _, rfl⟩ := Option.map_eq_some_iff.mp stepped
      exact refers.with_app ⟨profiles, projects, profile, nofun, uploads⟩
  | handleDoneTapped =>
      obtain ⟨view, shown, rfl⟩ := Option.map_eq_some_iff.mp stepped
      have closed : Refers db.ProjectExists names { client with editor := none } :=
        refers.with_app ⟨profiles, projects, profile, nofun, uploads⟩
      refine closed.perform (editor view shown) (fun upload member => ?_)
        view.writes_handleDoneTapped
      rw [view.uploads_handleDoneTapped] at member
      obtain ⟨_, _, rfl⟩ := List.mem_map.mp member
      rfl
  | uploadCompleted index =>
      obtain ⟨upload, pending, rfl⟩ := Option.map_eq_some_iff.mp stepped
      have landed : Refers db.ProjectExists names
          { client with uploads := client.uploads.eraseIdx index } :=
        refers.with_app ⟨profiles, projects, profile, editor,
          fun other member => uploads other (List.mem_of_mem_eraseIdx member)⟩
      exact landed.perform (uploads upload (List.mem_of_getElem? pending)) nofun
        upload.view.writes_uploadCompleted
  | uploadFailed index =>
      obtain ⟨_, _, rfl⟩ := Option.map_eq_some_iff.mp stepped
      exact refers.with_app ⟨profiles, projects, profile, editor,
        fun other member => uploads other (List.mem_of_mem_eraseIdx member)⟩
  | profileURL profile url =>
      cases stepped
      exact refers.enqueue_one .updatePicture
  | projectURL project url =>
      obtain ⟨request, issued, rfl⟩ := Option.map_eq_some_iff.mp stepped
      exact refers.enqueue_one (.updateProjectPicture issued)

/-- The oldest write takes effect: unless it lists a lost name, it is harmless. -/
theorem send {db : Database} (refers : client.Refers db.ProjectExists names)
    (named : db.Named names) {write : Write} (sent : client.send db = some (write, next))
    (found : ∀ name ∈ write.listed, name ∈ client.lost → db.ProjectExists name) :
    write.Harmless db.ProjectExists names ∧
      next.Refers (db.commit write).ProjectExists names := by
  unfold Client.send at sent
  cases queued : client.queue with
  | nil =>
      rw [queued] at sent
      exact nomatch sent
  | cons first rest =>
      rw [queued] at sent
      obtain ⟨applies, same⟩ := Option.ite_none_right_eq_some.mp sent
      cases same
      have issues := refers.queue
      rw [queued] at issues
      have harmless : write.Harmless db.ProjectExists names :=
        issues.1.mono (fun name listed known => known.elim id (found name listed))
          fun _ _ drawn => drawn
      have exist (name : String) (before : db.ProjectExists name) :
          (db.commit write).ProjectExists name := before.commit named harmless
      have created (name : String) (created : name ∈ write.created) :
          (db.commit write).ProjectExists name := write.projectExists_of_created created applies
      have later := refers.mono exist fun _ _ drawn => drawn
      have wider (name : String) (knows : client.Knows db.ProjectExists name) :
          Knows (db.commit write).ProjectExists { client with
            unacknowledged := client.unacknowledged ++ [write], queue := rest } name := by
        rcases knows with (before | lost) | creating
        · exact .inl (.inl (exist name before))
        · exact .inl (.inr lost)
        · unfold Client.creating at creating
          rw [queued] at creating
          obtain ⟨other, member, names⟩ := List.mem_filterMap.mp creating
          rcases List.mem_cons.mp member with rfl | still
          · exact .inl (.inl (created name names))
          · exact .inr (List.mem_filterMap.mpr ⟨other, still, names⟩)
      have app := refers.app.mono wider
      refine ⟨harmless, later.cachedProfiles, later.cachedProjects, fun other member => ?_, ?_,
        ⟨app.profiles, app.projects, app.profile, app.editor, app.uploads⟩⟩
      · rcases List.mem_append.mp member with earlier | last
        · exact later.unacknowledged other earlier
        · rw [List.mem_singleton.mp last]
          exact ⟨harmless.mono (fun name _ => exist name) fun _ _ drawn => drawn, created⟩
      · refine issues.2.mono (fun name known => ?_) fun _ _ drawn => drawn
        rcases known with (before | lost) | creates
        · exact .inl (exist name before)
        · exact .inr lost
        · exact .inl (created name creates)

/-- The oldest write in effect is acknowledged. -/
theorem acknowledge (refers : client.Refers exist names)
    (acknowledged : client.acknowledge = some next) : next.Refers exist names := by
  unfold Client.acknowledge at acknowledged
  cases sent : client.unacknowledged with
  | nil =>
      rw [sent] at acknowledged
      exact nomatch acknowledged
  | cons write rest =>
      rw [sent] at acknowledged
      cases acknowledged
      obtain ⟨harmless, created⟩ := refers.unacknowledged write (sent ▸ List.mem_cons_self)
      have app := refers.app
      refine ⟨fun email doc present name member => ?_, fun id doc name present named => ?_,
        fun other member => refers.unacknowledged other (sent ▸ List.mem_cons_of_mem _ member),
        refers.queue, ⟨app.profiles, app.projects, app.profile, app.editor, app.uploads⟩⟩
      · rcases Database.content_commit_cases _ _ present with cached | ⟨collection, rfl, applied⟩
        · exact refers.cachedProfiles email doc cached name member
        · rcases Write.mem_elements_apply collection.symm applied member with
            ⟨old, cached, held⟩ | listed
          · exact refers.cachedProfiles _ old cached name held
          · exact harmless.profile name listed
      · rcases Database.content_commit_cases _ _ present with cached | ⟨collection, rfl, applied⟩
        · exact refers.cachedProjects id doc name cached named
        · rcases harmless.project collection.symm _ doc applied with
            ⟨own, creates, written, _⟩ | ⟨old, cached, same⟩
          · cases named.symm.trans written
            exact created name creates
          · exact refers.cachedProjects _ old name cached (same.symm.trans named)

/-- The oldest write is rejected, and the name that it would have created is lost. -/
theorem reject (refers : client.Refers exist names) (rejected : client.reject = some next) :
    next.Refers exist names := by
  unfold Client.reject at rejected
  split at rejected
  · rename_i write rest sent queued
    cases rejected
    have issues := refers.queue
    rw [queued] at issues
    have lost_iff (name : String) : name ∈ write.created.toList ++ client.lost ↔
        name ∈ write.created ∨ name ∈ client.lost := by
      rw [List.mem_append, Option.mem_toList, Option.mem_def]
    have wider (name : String) (knows : client.Knows exist name) :
        Knows exist { client with
          queue := rest, lost := write.created.toList ++ client.lost } name := by
      rcases knows with (before | lost) | creating
      · exact .inl (.inl before)
      · exact .inl (.inr ((lost_iff name).mpr (.inr lost)))
      · unfold Client.creating at creating
        rw [queued] at creating
        obtain ⟨other, member, names⟩ := List.mem_filterMap.mp creating
        rcases List.mem_cons.mp member with rfl | still
        · exact .inl (.inr ((lost_iff name).mpr (.inl names)))
        · exact .inr (List.mem_filterMap.mpr ⟨other, still, names⟩)
    have app := refers.app.mono wider
    refine ⟨refers.cachedProfiles, refers.cachedProjects, refers.unacknowledged, ?_,
      ⟨app.profiles, app.projects, app.profile, app.editor, app.uploads⟩⟩
    refine issues.2.mono (fun name known => ?_) fun _ _ drawn => drawn
    rcases known with (before | lost) | creates
    · exact .inl before
    · exact .inr ((lost_iff name).mpr (.inr lost))
    · exact .inr ((lost_iff name).mpr (.inl creates))
  · exact nomatch rejected

/-- After a restart only the issued writes are left of the queue. -/
theorem restart (refers : client.Refers exist names) (uuid : String) (issued : Nat) :
    (client.restart uuid issued).Refers exist names where
  cachedProfiles := refers.cachedProfiles
  cachedProjects := refers.cachedProjects
  unacknowledged := refers.unacknowledged
  queue := by
    have issues := refers.queue
    rw [← List.take_append_drop issued client.queue] at issues
    exact (Issues.append_iff.mp issues).1
  app := ⟨nofun, nofun, nofun, nofun, nofun⟩

end Client.Refers

/-! ## Runs -/

/-- A step that writes no name without a project: a creation whose selected participants
match no loaded profile, or whose name a project has or the same app creates already; and
a write taking effect that lists no project whose creation the same app has failed to
store, unless some project has the name. -/
def AddsExistingNames (lowercased : String → String) (state : Deployment Image) :
    DeploymentEvent Image → Prop
  | .addProject index _ draft =>
      (∀ user ∈ draft.selectedParticipantsArray, ∀ profile ∈ (state.clients index).profiles,
        lowercased profile.email ≠ lowercased user) ∨
      state.db.ProjectExists draft.name ∨ draft.name ∈ (state.clients index).creating
  | .takeEffect index =>
      ∀ write ∈ (state.clients index).queue.head?, ∀ name ∈ write.listed,
        name ∈ (state.clients index).lost → state.db.ProjectExists name
  | _ => True

/-- The invariant of the deployment. -/
structure Deployment.Intact (state : Deployment Image) : Prop where
  named : state.db.Named state.names
  references : state.db.ReferencesExist
  clients : ∀ index, (state.clients index).Refers state.db.ProjectExists state.names

namespace Deployment.Intact

variable {state next : Deployment Image}

/-- Documents decode, so their names are known from the start. -/
theorem launch {db : Database} (wellFormed : db.WellFormed) (references : db.ReferencesExist)
    (uuid : String) : (Deployment.launch db uuid : Deployment Image).Intact where
  named := by
    intro id doc present
    obtain ⟨project, stored⟩ := wellFormed _ present
    have named := (Project.storedIn_iff.mp stored).1
    refine ⟨project.name, named, ?_⟩
    have decoded : (doc.decodeString "name").toOption = some project.name := by
      rw [Document.decodeString_eq_ok_iff.mpr named]
      rfl
    exact Option.bind_eq_some_iff.mpr ⟨doc, present, decoded⟩
  references := references
  clients := fun _ => .launch uuid

/-- One client changes. -/
theorem setClient (intact : state.Intact) (index : Nat) {client : Client Image}
    (refers : client.Refers state.db.ProjectExists state.names) :
    (state.setClient index client).Intact where
  named := intact.named
  references := intact.references
  clients := by
    intro other
    by_cases same : other = index
    · subst same
      change (Function.update state.clients other client other).Refers _ _
      rw [Function.update_self]
      exact refers
    · change (Function.update state.clients index client other).Refers _ _
      rw [Function.update_of_ne same]
      exact intact.clients other

/-- A harmless write of one client takes effect. -/
theorem commit (intact : state.Intact) (index : Nat) {client : Client Image} {write : Write}
    (harmless : write.Harmless state.db.ProjectExists state.names)
    (refers : client.Refers (state.db.commit write).ProjectExists state.names) :
    Intact { state.setClient index client with db := state.db.commit write } := by
  have later : Intact { state with db := state.db.commit write } :=
    ⟨intact.named.commit harmless, intact.references.commit intact.named harmless,
      fun other => (intact.clients other).mono
        (fun _ exist => exist.commit intact.named harmless) fun _ _ drawn => drawn⟩
  exact later.setClient index refers

/-- A new identifier is drawn for a name. -/
theorem draw (intact : state.Intact) {uuid : String} (fresh : state.names uuid = none)
    (name : String) :
    Intact { state with names := Function.update state.names uuid (some name) } := by
  have kept : ∀ id other, state.names id = some other →
      Function.update state.names uuid (some name) id = some other := by
    intro id other drawn
    have apart : id ≠ uuid := by
      rintro rfl
      exact absurd (fresh.symm.trans drawn) nofun
    rw [Function.update_of_ne apart]
    exact drawn
  refine ⟨fun id doc present => ?_, intact.references,
    fun index => (intact.clients index).mono (fun _ exist => exist) kept⟩
  obtain ⟨other, named, drawn⟩ := intact.named id doc present
  exact ⟨other, named, kept id other drawn⟩

/-- Without a matching participant, or with a known name, the writes of a creation list
known names, in the order of their issue. -/
theorem addProject_issues {index : Nat} {uuid : String} {draft : ProjectDraft Image}
    {effects : List (ProjectEffect Image)} {names : String → Option String}
    (drawn : names uuid = some draft.name)
    (issued : (state.form index uuid draft).handleDoneTapped lowercased = some effects)
    (adds : AddsExistingNames lowercased state (.addProject index uuid draft)) :
    Issues names ((state.clients index).Knows state.db.ProjectExists)
      (ProjectEffect.writes effects) := by
  rw [AddProjectView.writes_handleDoneTapped rfl issued, Issues.append_iff]
  refine ⟨?_, .addProject drawn, trivial⟩
  rcases adds with nobody | known
  · have empty : (state.form index uuid draft).setInterests.setParticipants lowercased = [] := by
      refine List.flatMap_eq_nil_iff.mpr fun user selected => ?_
      rw [List.map_eq_nil_iff, List.filter_eq_nil_iff]
      exact fun profile loaded same => nobody user selected profile loaded (beq_iff_eq.mp same)
    rw [empty]
    trivial
  · have knows : (state.clients index).Knows state.db.ProjectExists draft.name :=
      known.imp_left .inl
    have joins : ∀ write ∈ (state.form index uuid draft).setInterests.setParticipants lowercased,
        write.Harmless ((state.clients index).Knows state.db.ProjectExists) names := by
      intro write participant
      obtain ⟨profile, _, rfl⟩ := AddProjectView.mem_setParticipants participant
      exact .addOneProject knows
    exact Issues.of_harmless joins

/-- A step that adds existing names only keeps the deployment intact. -/
theorem step (intact : state.Intact) {event : DeploymentEvent Image}
    (stepped : state.step lowercased event = some next)
    (adds : AddsExistingNames lowercased state event) : next.Intact := by
  cases event with
  | act index event =>
      obtain ⟨client, acted, rfl⟩ := Option.map_eq_some_iff.mp stepped
      exact intact.setClient index ((intact.clients index).step intact.references acted)
  | addProject index uuid draft =>
      obtain ⟨enabled, accepted⟩ := Option.ite_none_left_eq_some.mp stepped
      obtain ⟨effects, issued, rfl⟩ := Option.map_eq_some_iff.mp accepted
      have fresh := Option.not_isSome_iff_eq_none.mp (not_or.mp enabled).2
      have drawn := intact.draw fresh draft.name
      have own : Function.update state.names uuid (some draft.name) uuid = some draft.name :=
        Function.update_self ..
      exact drawn.setClient index
        ((drawn.clients index).enqueue (addProject_issues own issued adds))
  | takeEffect index =>
      obtain ⟨⟨write, client⟩, sent, rfl⟩ := Option.map_eq_some_iff.mp stepped
      have first : (state.clients index).queue.head? = some write := Client.head?_of_send sent
      obtain ⟨harmless, refers⟩ :=
        (intact.clients index).send intact.named sent (adds write first)
      exact intact.commit index harmless refers
  | acknowledge index =>
      obtain ⟨client, acknowledged, rfl⟩ := Option.map_eq_some_iff.mp stepped
      exact intact.setClient index ((intact.clients index).acknowledge acknowledged)
  | fail index =>
      obtain ⟨client, rejected, rfl⟩ := Option.map_eq_some_iff.mp stepped
      exact intact.setClient index ((intact.clients index).reject rejected)
  | stop index uuid issued =>
      cases stepped
      exact intact.setClient index ((intact.clients index).restart uuid issued)

end Deployment.Intact

/-- **References stay intact.** From well formed collections whose references exist, they
exist after every run whose steps add existing names only, whichever writes take effect or
fail, whatever the listeners show meanwhile and wherever an app stops. -/
theorem references_exist_of_run (lowercased : String → String) (db : Database)
    (wellFormed : db.WellFormed) (references : db.ReferencesExist) (uuid : String)
    (events : List (DeploymentEvent Image)) (final : Deployment Image)
    (adds : (deploymentMachine lowercased).Along
      (fun state event _ => AddsExistingNames lowercased state event) (.launch db uuid) events)
    (ran : (deploymentMachine lowercased).run (.launch db uuid) events = some final) :
    final.db.ReferencesExist :=
  (Machine.invariant_of_along (fun intact stepped guard => intact.step stepped guard)
    (Deployment.Intact.launch wellFormed references uuid) adds ran).references

/-- A profile that refers to one project. -/
def reefDatabase : Database :=
  Database.empty.commitAll
    [⟨.projects, "d-1", .setData
        (Project.encode { ProjectViewModel.initialProject "d-1" with name := "Reef" })⟩,
      ProfileViewModel.addProfile
        { ProfileViewModel.initialProfile "i-1" with
          email := "ann@uni.edu"
          projects := ["Reef"] }]

theorem wellFormed_reefDatabase : reefDatabase.WellFormed := by
  refine Database.wellFormed_empty.commitAll fun write member => ?_
  rcases List.mem_pair.mp member with rfl | rfl
  · exact ⟨.addProject { ProjectViewModel.initialProject "d-1" with name := "Reef" }, rfl⟩
  · exact ⟨.addProfile _, rfl⟩

/-- The only reference of the example database exists. -/
theorem referencesExist_reefDatabase : reefDatabase.ReferencesExist := by
  intro email doc present name member
  have listed := (Collection.get?_eq_some_iff _).mp present
  cases List.mem_singleton.mp listed
  cases List.mem_singleton.mp member
  exact ⟨"d-1", _, rfl, rfl⟩

/-- A project form filled for a project of the given name and participants. -/
def draftFor (name : String) (participants : List String) : ProjectDraft Nat :=
  ⟨name, "reef.org", "Corals", ["Biology"], participants, some 7⟩

/-- The app receives the profile and the project. -/
def receivingEvents : List (DeploymentEvent Nat) :=
  [.act 0 (.receive .profiles "ann@uni.edu"), .act 0 (.receive .projects "d-1"),
    .act 0 (.profilesSnapshot fun _ => "i-2")]

/-- A project is created without participants, and its creator joins it while it is pending. -/
def creatingEvents : List (DeploymentEvent Nat) :=
  [.addProject 0 "d-2" (draftFor "Atoll" []), .act 0 (.projectsSnapshot fun _ => "i-2"),
    .act 0 (.tapMyProfile (some "ann@uni.edu")), .act 0 (.edit (.projects ["Reef", "Atoll"])),
    .act 0 .handleDoneTapped]

/-- Both writes then take effect. -/
def joiningEvents : List (DeploymentEvent Nat) :=
  receivingEvents ++ creatingEvents ++ [.takeEffect 0, .takeEffect 0, .acknowledge 0]

/-- The creator joins the pending project, and both names exist in the end. -/
theorem references_exist_of_run_joiningEvents :
    ∃ final,
      (deploymentMachine asciiLowercased).run (.launch reefDatabase "i-0") joiningEvents =
        some final ∧
      final.db.ReferencesExist ∧ final.db.StoresProfile "ann@uni.edu"
        { ProfileViewModel.initialProfile "i-1" with
          email := "ann@uni.edu"
          projects := ["Reef", "Atoll"] } := by
  refine ⟨_, rfl, ?_, _, rfl, Profile.storedIn_iff.mpr ⟨rfl, rfl, rfl, rfl, rfl, rfl, rfl, rfl⟩⟩
  refine references_exist_of_run asciiLowercased reefDatabase wellFormed_reefDatabase
    referencesExist_reefDatabase "i-0" joiningEvents _ ?_ rfl
  exact ⟨trivial, trivial, trivial, .inl nofun, trivial, trivial, trivial, trivial,
    (fun _ _ _ _ lost => nomatch lost), (fun _ _ _ _ lost => nomatch lost), trivial, trivial⟩

/-- Ann is selected as a participant of a new project; only the first write of the Done
has taken effect. -/
def participantEvents : List (DeploymentEvent Nat) :=
  receivingEvents ++ [.addProject 0 "d-2" (draftFor "Atoll" ["ann@uni.edu"]), .takeEffect 0]

/-- The creation fails after its creator has joined, and the profile takes effect. -/
def rejectedEvents : List (DeploymentEvent Nat) :=
  receivingEvents ++ creatingEvents ++ [.fail 0, .takeEffect 0]

/-- In both runs Ann is left with a project that no document has. -/
theorem references_dangle :
    reefDatabase.ReferencesExist ∧ ∀ events ∈ [participantEvents, rejectedEvents], ∃ final,
      (deploymentMachine asciiLowercased).run (.launch reefDatabase "i-0") events = some final ∧
        ¬ final.db.ReferencesExist := by
  refine ⟨referencesExist_reefDatabase, ?_⟩
  simp only [List.forall_mem_cons, List.not_mem_nil, false_implies, implies_true, and_true]
  refine ⟨⟨_, rfl, fun references => ?_⟩, ⟨_, rfl, fun references => ?_⟩⟩
  all_goals
    obtain ⟨id, doc, present, named⟩ := references "ann@uni.edu" _ rfl "Atoll" (by decide)
    have listed := (Collection.get?_eq_some_iff _).mp present
    cases List.mem_singleton.mp listed
    exact absurd named (by decide)

end Bowfolio
