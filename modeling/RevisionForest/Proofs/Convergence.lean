import RevisionForest.Proofs.Peers
/-!
# Networks converge

Every store of a network that is changed by its own mutations and by replications mirrors the one tree of all contents that were written (`Network.Run.peers`), since a mutation only adds what the tree has, and a replication only what the source has of it. So a replication of one store into another never fails and spreads all that the source knows. One pass over all ordered pairs is enough whatever their order: what a store knew before the pass it still knows when its turn comes to be replicated into any other, so every other one knows it in the end (`Network.syncAll_ok`). Then all stores know the same part of the same tree, and show the same (`Network.Run.converges`).
-/

namespace RevisionForest

open Tables

/-! ### Mutations of a peer -/

namespace Store

variable {store after : Store} {tree : Pedigree} {mutation : Mutation} {outcome : Outcome} {error : StoreError}

theorem Peer.mutate (peer : store.Peer tree) (hlocal : mutation.Local)
    (hplaces : ∀ content ∈ mutation.contents store.writer.database.tables, tree.Places content)
    (h : execute mutation.run store = .ok outcome after) : after.Peer tree := by
  have hanchored := Writer.anchored_of_rest peer.ready.rest
  have hstocked := execute_ends
    (mutation.run_ends covers_furnished.toCourse (covers_furnished.runs mutation _) hanchored) course_kept peer.ready.rest
  have hdisplays := execute_ends
    (mutation.run_ends (course_displays tree) (Mutation.runs_displays hlocal hplaces) hanchored) course_kept peer.ready.rest
  rw [h] at hstocked hdisplays
  obtain ⟨hrest, hclosed, hgrown, hfurnished⟩ := hstocked
  obtain ⟨healthy, hstocked⟩ := hfurnished peer.ready.healthy peer.stocked
  obtain ⟨-, hshows⟩ := hdisplays.2.2 peer.ready.healthy peer.shows
  exact ⟨⟨hclosed.trans peer.ready.opened, hrest, healthy, hgrown.unlimited peer.ready.unlimited⟩, hstocked, hshows⟩

theorem Peer.refuse (peer : store.Peer tree) (h : execute mutation.run store = .error error after) : after.Peer tree := by
  have hends := execute_ends (mutation.run_ends covers_sound.toCourse (covers_sound.runs mutation _)
    (Writer.anchored_of_rest peer.ready.rest)) course_kept peer.ready.rest
  rw [h] at hends
  obtain ⟨hrest, hclosed, hkept⟩ := hends
  have htables : after.writer.database.tables = store.writer.database.tables := hkept.tables
  refine ⟨⟨hclosed.trans peer.ready.opened, hrest, ?_, hkept.blobs.unlimited peer.ready.unlimited⟩,
    peer.stocked.mono hkept.tables hkept.blobs, ?_⟩
  · rw [htables]
    exact peer.ready.healthy
  · rw [htables]
    exact peer.shows

theorem Peer.tick (peer : store.Peer tree) (clock : Nat) :
    Peer { store with writer := { store.writer with clock } } tree :=
  ⟨⟨peer.ready.opened, peer.ready.rest, peer.ready.healthy, peer.ready.unlimited⟩,
    ⟨peer.stocked.bodies, peer.stocked.attachments⟩, peer.shows⟩

theorem peer_openWith (tree : Pedigree) (config : Config) {blobs : BlobStore} (hblobs : blobs.budget = none) :
    (openWith config blobs).Peer tree where
  ready := ⟨rfl, rfl, healthy_empty, hblobs⟩
  stocked := ⟨fun _ hbone => absurd hbone List.not_mem_nil, fun _ hrow => absurd hrow List.not_mem_nil⟩
  shows := fun _ => shows_of_absent rfl tree

end Store

namespace Network

variable {n : Nat} {network after : Network n} {tree : Pedigree} {i j source target : Fin n}

/-- A store of the network has a revision of a document. -/
def Knows (network : Network n) (i : Fin n) (doc : String) (rev : RevId) : Prop :=
  (network.store i).writer.database.tables.Knows doc rev

/-- All stores of the network share a tree. -/
def Peers (network : Network n) (tree : Pedigree) : Prop :=
  ∀ i : Fin n, (network.store i).Peer tree

/-! ### Requests to a store -/

/-- A store of the network as it gets a request. -/
def holder (network : Network n) (i : Fin n) : Store :=
  { network.store i with writer := { (network.store i).writer with clock := network.clock } }

/-- The network with a store in place of another. -/
def install (network : Network n) (i : Fin n) (store : Store) : Network n :=
  ⟨network.stores.set i store i.isLt, store.writer.clock⟩

theorem onStore_eq {α : Type} (request : Request α) :
    onStore i request network = match request (network.holder i) with
      | .ok value store => .ok value (network.install i store)
      | .error error store => .error error (network.install i store) :=
  rfl

theorem install_store (network : Network n) (i j : Fin n) (store : Store) :
    (network.install i store).store j = if i = j then store else network.store j := by
  simp only [Fin.ext_iff]
  exact Vector.getElem_set i.isLt j.isLt

theorem Peers.install (peers : network.Peers tree) (i : Fin n) {store : Store} (hstore : store.Peer tree) :
    (network.install i store).Peers tree := by
  intro j
  rw [install_store]
  split
  · exact hstore
  · exact peers j

/-! ### Replication -/

theorem replicate_of_ok {moved : Moved} {store : Store}
    (h : Store.replicateFrom (network.store source) (network.holder target) = .ok moved store) :
    replicate source target network = .ok moved (network.install target store) := by
  have honStore : onStore target (Store.replicateFrom (network.store source)) network
      = .ok moved (network.install target store) := by
    rw [onStore_eq, h]
  exact honStore

theorem replicate_ok (peers : network.Peers tree) (rising : tree.Rising) (source target : Fin n) :
    ∃ moved after, replicate source target network = .ok moved after ∧ after.Peers tree ∧
      ∀ i doc rev, after.Knows i doc rev ↔ network.Knows i doc rev ∨ (target = i ∧ network.Knows source doc rev) := by
  obtain ⟨moved, store, hresult, hstore, hknows⟩ :=
    Store.replicateFrom_ok (peers source) rising ((peers target).tick network.clock)
  refine ⟨moved, network.install target store, replicate_of_ok hresult, peers.install target hstore, fun i doc rev => ?_⟩
  unfold Knows
  rw [install_store]
  split
  · rename_i heq
    subst heq
    simp only [true_and]
    exact hknows doc rev
  · rename_i hne
    simp only [hne, false_and, or_false]

/-- Replications from the first to the second store of some pairs never fail, and bring what the first knew to the second. -/
theorem replicateEach_ok (peers : network.Peers tree) (rising : tree.Rising) (list : List (Fin n × Fin n)) :
    ∃ after, (list.forM fun pair => discard (replicate pair.1 pair.2)) network = .ok () after ∧ after.Peers tree ∧
      (∀ i doc rev, network.Knows i doc rev → after.Knows i doc rev) ∧
      (∀ i doc rev, after.Knows i doc rev → ∃ j, network.Knows j doc rev) ∧
      ∀ pair ∈ list, ∀ doc rev, network.Knows pair.1 doc rev → after.Knows pair.2 doc rev := by
  induction list generalizing network with
  | nil => exact ⟨network, rfl, peers, fun _ _ _ h => h, fun i _ _ h => ⟨i, h⟩, fun _ hpair => absurd hpair List.not_mem_nil⟩
  | cons pair rest ih =>
    obtain ⟨moved, between, hstep, hbetween, hknows⟩ := replicate_ok peers rising pair.1 pair.2
    obtain ⟨after, hrest, hafter, hkept, hsource, hspread⟩ := ih hbetween
    have hgained : ∀ i doc rev, network.Knows i doc rev → between.Knows i doc rev := fun i doc rev h =>
      (hknows i doc rev).mpr (.inl h)
    have hdiscard : discard (replicate pair.1 pair.2) network = .ok () between := by
      simp only [discard, Functor.discard, Functor.mapConst, EStateM.map, hstep, Function.comp_apply]
    refine ⟨after, ok_bind_iff.mpr ⟨(), between, hdiscard, hrest⟩, hafter, ?_, ?_, ?_⟩
    · exact fun i doc rev h => hkept i doc rev (hgained i doc rev h)
    · intro i doc rev h
      obtain ⟨j, hj⟩ := hsource i doc rev h
      rcases (hknows j doc rev).mp hj with hold | ⟨-, hnew⟩
      · exact ⟨j, hold⟩
      · exact ⟨pair.1, hnew⟩
    · intro other hother doc rev h
      -- What a store knew before all replications it still knows when its own turn comes.
      rcases List.mem_cons.mp hother with rfl | hother
      · exact hkept _ doc rev ((hknows _ doc rev).mpr (.inr ⟨rfl, h⟩))
      · exact hspread other hother doc rev (hgained _ doc rev h)

theorem mem_pairs_iff : (source, target) ∈ pairs n ↔ source ≠ target := by
  simp [pairs]

theorem syncAll_ok (peers : network.Peers tree) (rising : tree.Rising) :
    ∃ synced, syncAll network = .ok () synced ∧ synced.Peers tree ∧
      ∀ i doc rev, synced.Knows i doc rev ↔ ∃ j, network.Knows j doc rev := by
  obtain ⟨synced, hsync, hsynced, hkept, hsource, hspread⟩ := replicateEach_ok peers rising (pairs n)
  refine ⟨synced, hsync, hsynced, fun i doc rev => ⟨hsource i doc rev, ?_⟩⟩
  rintro ⟨j, hj⟩
  by_cases heq : j = i
  · exact heq ▸ hkept j doc rev hj
  · exact hspread (j, i) (mem_pairs_iff.mpr heq) doc rev hj

/-! ### Runs -/

/-- Networks of stores that were opened empty, over blobs that can be written, and then changed by mutations of their own and by replications; with them the contents that the mutations have written. -/
inductive Run : List Content → Network n → Prop
  | opened (stores : Vector Store n) (clock : Nat)
      (hempty : ∀ i : Fin n, ∃ config blobs, stores.get i = Store.openWith config blobs ∧ blobs.budget = none) :
    Run [] ⟨stores, clock⟩
  | mutated {contents : List Content} {network after : Network n} {outcome : Outcome} (i : Fin n) (mutation : Mutation)
      (hlocal : mutation.Local) (h : Run contents network)
      (hresult : onStore i (Store.execute mutation.run) network = .ok outcome after) :
    Run (contents ++ mutation.contents (network.store i).writer.database.tables) after
  | refused {contents : List Content} {network after : Network n} {error : StoreError} (i : Fin n) (mutation : Mutation)
      (h : Run contents network) (hresult : onStore i (Store.execute mutation.run) network = .error error after) :
    Run contents after
  | replicated {contents : List Content} {network : Network n} (source target : Fin n) (h : Run contents network) :
    Run contents (stateAfter (replicate source target) network)

/-- All stores of a run share every tree that places the contents written in it. -/
theorem Run.peers {contents : List Content} (h : Run contents network) (rising : tree.Rising)
    (hplaces : ∀ content ∈ contents, tree.Places content) : network.Peers tree := by
  induction h with
  | opened stores clock hempty =>
    intro i
    obtain ⟨config, blobs, hopened, hblobs⟩ := hempty i
    rw [show (⟨stores, clock⟩ : Network n).store i = _ from hopened]
    exact Store.peer_openWith tree config hblobs
  | @mutated _ network after outcome i mutation hlocal _ hresult ih =>
    have peers := ih fun content hcontent => hplaces content (List.mem_append_left _ hcontent)
    rw [onStore_eq] at hresult
    cases hexecute : Store.execute mutation.run (network.holder i) with
    | error error store =>
      rw [hexecute] at hresult
      nomatch hresult
    | ok value store =>
      rw [hexecute] at hresult
      obtain ⟨-, rfl⟩ := EStateM.Result.ok.inj hresult
      have hwritten : ∀ content ∈ mutation.contents (network.holder i).writer.database.tables, tree.Places content :=
        fun content hcontent => hplaces content (List.mem_append_right _ hcontent)
      exact peers.install i (((peers i).tick network.clock).mutate hlocal hwritten hexecute)
  | @refused _ network after error i mutation _ hresult ih =>
    rw [onStore_eq] at hresult
    cases hexecute : Store.execute mutation.run (network.holder i) with
    | ok value store =>
      rw [hexecute] at hresult
      nomatch hresult
    | error error store =>
      rw [hexecute] at hresult
      obtain ⟨-, rfl⟩ := EStateM.Result.error.inj hresult
      exact (ih hplaces).install i (((ih hplaces i).tick network.clock).refuse hexecute)
  | replicated source target _ ih =>
    obtain ⟨moved, after, hresult, hafter, -⟩ := replicate_ok (ih hplaces) rising source target
    rw [stateAfter_of_ok hresult]
    exact hafter

/-- After one pass over all pairs every store has the revisions that any store had, and all stores show the same of every document. -/
theorem Run.converges {contents : List Content} (h : Run contents network) (hfree : Content.CollisionFree contents) :
    ∃ synced, syncAll network = .ok () synced ∧
      (∀ (i j : Fin n) doc, (synced.store i).view doc = (synced.store j).view doc) ∧
      ∀ (i : Fin n) doc rev,
        ((synced.store i).containsRevision doc rev = .ok true ↔
          ∃ j : Fin n, (network.store j).containsRevision doc rev = .ok true) ∧
        ((synced.store i).containsRevision doc rev = .ok true → ((synced.store i).view doc).Whole) := by
  have rising := Pedigree.ofContents_rising contents
  have peers := h.peers rising fun content => Pedigree.ofContents_places hfree
  obtain ⟨synced, hsync, hsynced, hknows⟩ := syncAll_ok peers rising
  have hcontains : ∀ {network : Network n}, network.Peers (.ofContents contents) → ∀ (i : Fin n) doc rev,
      (network.store i).containsRevision doc rev = .ok true ↔ network.Knows i doc rev := by
    intro network peers i doc rev
    obtain ⟨known, hanswer, hiff⟩ := Store.containsRevision_eq (peers i).ready.opened doc rev
    rw [hanswer, Except.ok.injEq]
    exact hiff
  refine ⟨synced, hsync, fun i j doc => ?_, fun i doc rev => ⟨?_, fun hknown => ?_⟩⟩
  · exact Store.view_eq (hsynced i).ready.opened (hsynced j).ready.opened (hsynced i).ready.healthy
      (hsynced j).ready.healthy ((hsynced i).shows doc) ((hsynced j).shows doc)
      fun rev => (hknows i doc rev).trans (hknows j doc rev).symm
  · rw [hcontains hsynced, hknows]
    exact exists_congr fun j => (hcontains peers j doc rev).symm
  · exact Store.view_whole (hsynced i).ready.opened (hsynced i).ready.healthy ((hcontains hsynced i doc rev).mp hknown)

/-- Two stores that have written a document each in its own way end with both revisions. -/
theorem converges_conflicting :
    let first : Mutation := .create (some "d") Body.empty []
    let second : Mutation := .create (some "d") (Utf8.encode "\x7b\"a\":1\x7d") []
    let opened : Network 2 := ⟨#v[.new {}, .new {}], 0⟩
    let between := stateAfter (onStore 0 (Store.execute first.run)) opened
    let network := stateAfter (onStore 1 (Store.execute second.run)) between
    ∃ synced, syncAll network = .ok () synced ∧
      (∀ (i j : Fin 2) doc, (synced.store i).view doc = (synced.store j).view doc) ∧
      ∀ (i : Fin 2) doc rev,
        ((synced.store i).containsRevision doc rev = .ok true ↔
          ∃ j : Fin 2, (network.store j).containsRevision doc rev = .ok true) ∧
        ((synced.store i).containsRevision doc rev = .ok true → ((synced.store i).view doc).Whole) := by
  intro first second opened between network
  have hopened : Run [] opened := by
    refine .opened _ 0 fun i => ⟨{}, {}, ?_, rfl⟩
    match i with
    | 0 => rfl
    | 1 => rfl
  have hfirst : ∃ outcome, onStore 0 (Store.execute first.run) opened = .ok outcome between :=
    exists_ok_of_succeeds (by decide +kernel)
  have hsecond : ∃ outcome, onStore 1 (Store.execute second.run) between = .ok outcome network :=
    exists_ok_of_succeeds (by decide +kernel)
  obtain ⟨_, hfirst⟩ := hfirst
  obtain ⟨_, hsecond⟩ := hsecond
  exact ((hopened.mutated 0 first trivial hfirst).mutated 1 second trivial hsecond).converges (by decide +kernel)

end Network

end RevisionForest
