import Ccbt.Discovery.Pex
import Ccbt.Transition.Run

/-!
# The view of the remote peer

What the peer of a session holds after any rounds, and when it comes to hold the connected peers.
-/

namespace Ccbt.Pex

open Python Transition

section Rounds

/-- Nothing keeps the manager from sending to the session. -/
def AsyncPexManager.CanSend (m : AsyncPexManager) : Prop :=
  m.session.is_supported = true ∧ m.session.ut_pex_id.getD 0 ≠ 0 ∧ m.send_pex_callback = true

/-- What reaches the remote peer of a list that is sent. -/
def delivered (result : Option Bool) (peers : List Peer) : Finset Peer :=
  if result = some true then peers.toFinset else ∅

variable {m : AsyncPexManager} {r : Round} {x : Exchange} {peer : Peer}

theorem sendPeers_fst (peers : List Peer) (result : Option Bool) (failures : Nat) :
    (sendPeers (encodePeersList peers) result failures).1 =
      decide (peers ≠ [] ∧ result = some true) := by
  rw [sendPeers]
  split_ifs with hnil hresult
  · rw [encodePeersList_eq_nil] at hnil
    simp [hnil]
  · rw [encodePeersList_eq_nil] at hnil
    simp [hnil, hresult]
  · simp [hresult]

theorem receive_encode (view : Finset Peer) (peers : List Peer) (is_added : Bool) :
    receive view ⟨encodePeersList peers, is_added⟩ =
      if is_added then view ∪ peers.toFinset else view \ peers.toFinset := by
  rw [receive, decodePeersList_encode]

theorem delivered_of_ne {result : Option Bool} {peers : List Peer}
    (h : ¬(peers ≠ [] ∧ result = some true)) : delivered result peers = ∅ := by
  rw [delivered]
  split_ifs with hresult
  · rw [List.toFinset_eq_empty_iff]
    by_contra hne
    exact h ⟨hne, hresult⟩
  · rfl

/-- The two lists of a round are one delta for the remote peer. -/
theorem step_view (h : x.manager.CanSend) :
    (step x r).view = Replica.apply x.view
      (delivered r.send_added (x.manager.pexPeersToAdd r))
      (delivered r.send_dropped (x.manager.pexPeersToDrop r)) := by
  obtain ⟨hsupported, hid, hcallback⟩ := h
  simp only [step, sendPexToPeer, AsyncPexManager.getPexPeerLists, hsupported, hid, hcallback,
    sendPeers_fst, Bool.not_true, decide_false, Bool.or_false, Bool.false_eq_true, if_false,
    List.foldl_append, Replica.apply, decide_eq_true_eq]
  have hadded : List.foldl receive x.view
      (if x.manager.pexPeersToAdd r ≠ [] ∧ r.send_added = some true then
        [⟨encodePeersList (x.manager.pexPeersToAdd r), true⟩] else []) =
      x.view ∪ delivered r.send_added (x.manager.pexPeersToAdd r) := by
    split_ifs with hsent
    · rw [List.foldl_cons, List.foldl_nil, receive_encode, if_pos rfl, delivered, if_pos hsent.2]
    · rw [delivered_of_ne hsent, Finset.union_empty, List.foldl_nil]
  rw [hadded]
  split_ifs with hsent
  · rw [List.foldl_cons, List.foldl_nil, receive_encode, if_neg Bool.false_ne_true, delivered,
      delivered, if_pos hsent.2]
  · rw [delivered_of_ne hsent, Finset.sdiff_empty, List.foldl_nil]

/-- The manager's own account of a round does not depend on what becomes of the messages. -/
theorem step_manager (h : x.manager.CanSend) : ∃ failures,
    (step x r).manager = { x.manager with
      session := { x.manager.session with consecutive_failures := failures }
      peers_sent_to_session := x.manager.peers_sent_to_session ∪ x.manager.pexPeersToAdd r
      previous_connected_peers := x.manager.current r } := by
  obtain ⟨hsupported, hid, hcallback⟩ := h
  simp only [step, sendPexToPeer, AsyncPexManager.getPexPeerLists, hsupported, hid, hcallback,
    Bool.not_true, decide_false, Bool.or_false, Bool.false_eq_true, if_false]
  exact ⟨_, rfl⟩

theorem AsyncPexManager.mem_addedPeersSet : peer ∈ m.addedPeersSet r ↔ peer ∈ m.current r ∧
    peer ∉ m.previous_connected_peers ∧ peer ∉ m.peers_sent_to_session := by
  simp only [addedPeersSet, List.mem_filter, decide_eq_true_eq, and_assoc]

theorem AsyncPexManager.mem_droppedPeersSet : peer ∈ m.droppedPeersSet r ↔
    peer ∈ m.previous_connected_peers ∧ peer ∉ m.current r := by
  simp only [droppedPeersSet, List.mem_filter, decide_eq_true_eq]

theorem AsyncPexManager.nodup_current : (m.current r).Nodup := (List.nodup_dedup _).filter _

theorem AsyncPexManager.nodup_addedPeersSet : (m.addedPeersSet r).Nodup :=
  (nodup_current.filter _).filter _

theorem AsyncPexManager.mem_addedPeersSet_of_toAdd (h : peer ∈ m.pexPeersToAdd r) :
    peer ∈ m.addedPeersSet r := mem_iterSet.mp (List.mem_of_mem_take h)

theorem AsyncPexManager.mem_droppedPeersSet_of_toDrop (h : peer ∈ m.pexPeersToDrop r) :
    peer ∈ m.droppedPeersSet r := mem_iterSet.mp (List.mem_of_mem_take h)

theorem delivered_subset (result : Option Bool) (peers : List Peer) :
    delivered result peers ⊆ peers.toFinset := by
  rw [delivered]
  split_ifs
  · exact Finset.Subset.refl _
  · exact Finset.empty_subset _

end Rounds

/-- What all rounds of a session keep: the remote peer holds only what has been sent to it. -/
structure Exchange.Inv (x : Exchange) : Prop where
  canSend : x.manager.CanSend
  view_sent : ∀ peer ∈ x.view, peer ∈ x.manager.peers_sent_to_session
  nodup_previous : x.manager.previous_connected_peers.Nodup

section Histories

variable {x : Exchange} {r : Round}

theorem inv_step (hx : x.Inv) (r : Round) : (step x r).Inv := by
  obtain ⟨failures, hmanager⟩ := step_manager (r := r) hx.canSend
  refine ⟨?_, fun peer hpeer => ?_, ?_⟩
  · rw [hmanager]
    exact hx.canSend
  · rw [hmanager]
    rw [step_view hx.canSend] at hpeer
    rw [List.mem_union_iff]
    obtain ⟨hold | hnew, -⟩ := Replica.mem_apply.mp hpeer
    · exact .inl (hx.view_sent peer hold)
    · exact .inr (List.mem_toFinset.mp (delivered_subset _ _ hnew))
  · rw [hmanager]
    exact AsyncPexManager.nodup_current

theorem inv_run (hx : x.Inv) (rounds : List Round) : (run step x rounds).Inv := by
  induction rounds generalizing x with
  | nil => exact hx
  | cons r rounds ih => exact ih (inv_step hx r)

/-- The remote peer comes to hold only peers that have been connected. -/
theorem connected_of_mem_view (hx : x.Inv) {rounds : List Round} {peer : Peer}
    (h : peer ∈ (run step x rounds).view) :
    peer ∈ x.view ∨ ∃ r ∈ rounds, peer ∈ r.connected_peers.getD [] := by
  induction rounds generalizing x with
  | nil => exact .inl h
  | cons r rounds ih =>
    rcases ih (inv_step hx r) h with h | ⟨r', hr', h⟩
    · rw [step_view hx.canSend] at h
      obtain ⟨hold | hnew, -⟩ := Replica.mem_apply.mp h
      · exact .inl hold
      · have hadded := AsyncPexManager.mem_addedPeersSet_of_toAdd
          (List.mem_toFinset.mp (delivered_subset _ _ hnew))
        have hcurrent := (AsyncPexManager.mem_addedPeersSet.mp hadded).1
        exact .inr ⟨r, List.mem_cons_self, (mem_currentConnected.mp hcurrent).1⟩
    · exact .inr ⟨r', List.mem_cons_of_mem _ hr', h⟩

theorem peer_key_step (hx : x.Inv) (r : Round) :
    (step x r).manager.session.peer_key = x.manager.session.peer_key := by
  obtain ⟨failures, hmanager⟩ := step_manager (r := r) hx.canSend
  rw [hmanager]

end Histories

section Convergence

variable {x : Exchange} {r : Round} {connected : List Peer} {peer : Peer}

/-- The connected peers that the session is to know of. -/
def Exchange.others (x : Exchange) (connected : List Peer) : Finset Peer :=
  (currentConnected x.manager.session.peer_key (some connected)).toFinset

/-- A round in which both sends succeed while these peers are connected. -/
structure Round.Steady (x : Exchange) (connected : List Peer) (r : Round) : Prop where
  current : (x.manager.current r).toFinset = x.others connected
  added : r.send_added = some true
  dropped : r.send_dropped = some true

/-- The remote peer holds the connected peers once they have stayed the same for enough successful
rounds. -/
def Converges (x : Exchange) (connected : List Peer) : Prop :=
  ∃ n, ∀ rounds : List Round, n ≤ rounds.length → (∀ r ∈ rounds, r.Steady x connected) →
    (run step x rounds).view = x.others connected

/-- Nothing that the manager takes for known is missing, what is in excess was connected in the last
round, and what has come and gone since then fits into one message each. -/
structure Settles (x : Exchange) (connected : List Peer) : Prop where
  new_le : ((x.others connected \ x.manager.previous_connected_peers.toFinset) \
    x.manager.peers_sent_to_session.toFinset).card ≤ max_peers_per_interval
  known_held : ∀ peer ∈ x.others connected, peer ∈ x.manager.previous_connected_peers ∨
    peer ∈ x.manager.peers_sent_to_session → peer ∈ x.view
  excess_previous : ∀ peer ∈ x.view \ x.others connected,
    peer ∈ x.manager.previous_connected_peers
  gone_le : x.view ⊆ x.others connected ∨
    (x.manager.previous_connected_peers.toFinset \ x.others connected).card ≤
      max_peers_per_interval

theorem Round.Steady.mem_current (hr : r.Steady x connected) :
    peer ∈ x.manager.current r ↔ peer ∈ x.others connected := by
  rw [← hr.current, List.mem_toFinset]

/-- A successful round brings the view to the connected peers exactly when its lists hold all that
is missing and all that is in excess. -/
theorem step_view_eq_iff (hx : x.Inv) (hr : r.Steady x connected) :
    (step x r).view = x.others connected ↔
      x.others connected \ x.view ⊆ (x.manager.pexPeersToAdd r).toFinset ∧
        x.view \ x.others connected ⊆ (x.manager.pexPeersToDrop r).toFinset := by
  rw [step_view hx.canSend, delivered, delivered, if_pos hr.added, if_pos hr.dropped]
  apply Replica.apply_eq_iff
  · intro peer hpeer
    have hadded := AsyncPexManager.mem_addedPeersSet_of_toAdd (List.mem_toFinset.mp hpeer)
    exact hr.mem_current.mp (AsyncPexManager.mem_addedPeersSet.mp hadded).1
  · rw [Finset.disjoint_left]
    intro peer hpeer hin
    have hdropped := AsyncPexManager.mem_droppedPeersSet_of_toDrop (List.mem_toFinset.mp hpeer)
    exact (AsyncPexManager.mem_droppedPeersSet.mp hdropped).2 (hr.mem_current.mpr hin)

theorem others_step (hx : x.Inv) : (step x r).others connected = x.others connected := by
  rw [Exchange.others, Exchange.others, peer_key_step hx]

theorem steady_step (hx : x.Inv) {r' : Round} :
    r'.Steady (step x r) connected ↔ r'.Steady x connected := by
  have hcurrent : (step x r).manager.current r' = x.manager.current r' := by
    rw [AsyncPexManager.current, AsyncPexManager.current, peer_key_step hx]
  constructor
  · rintro ⟨h, hadded, hdropped⟩
    rw [hcurrent, others_step hx] at h
    exact ⟨h, hadded, hdropped⟩
  · rintro ⟨h, hadded, hdropped⟩
    refine ⟨?_, hadded, hdropped⟩
    rw [hcurrent, others_step hx, h]

/-- Once the connected peers stay the same, no round but the first changes the view. -/
theorem run_view_of_steady (hx : x.Inv)
    (hprevious : x.manager.previous_connected_peers.toFinset = x.others connected)
    {rounds : List Round} (hrounds : ∀ r ∈ rounds, r.Steady x connected) :
    (run step x rounds).view = x.view := by
  induction rounds generalizing x with
  | nil => rfl
  | cons r rounds ih =>
    obtain ⟨hr, hrest⟩ := List.forall_mem_cons.mp hrounds
    have hprevious' : (step x r).manager.previous_connected_peers.toFinset =
        (step x r).others connected := by
      obtain ⟨failures, hmanager⟩ := step_manager (r := r) hx.canSend
      rw [others_step hx, ← hr.current, hmanager]
    have hview : (step x r).view = x.view := by
      have hsame (peer : Peer) : peer ∈ x.manager.current r ↔
          peer ∈ x.manager.previous_connected_peers := by
        rw [hr.mem_current, ← hprevious, List.mem_toFinset]
      have hadded : x.manager.pexPeersToAdd r = [] := by
        rw [List.eq_nil_iff_forall_not_mem]
        intro peer hpeer
        have hnew := AsyncPexManager.mem_addedPeersSet.mp
          (AsyncPexManager.mem_addedPeersSet_of_toAdd hpeer)
        exact hnew.2.1 ((hsame peer).mp hnew.1)
      have hdropped : x.manager.pexPeersToDrop r = [] := by
        rw [List.eq_nil_iff_forall_not_mem]
        intro peer hpeer
        have hgone := AsyncPexManager.mem_droppedPeersSet.mp
          (AsyncPexManager.mem_droppedPeersSet_of_toDrop hpeer)
        exact hgone.2 ((hsame peer).mpr hgone.1)
      rw [step_view hx.canSend, hadded, hdropped, delivered, delivered, if_pos hr.added,
        if_pos hr.dropped, List.toFinset_nil, Replica.apply_empty]
    rw [run_cons, ih (inv_step hx r) hprevious' fun r' hr' => (steady_step hx).mpr (hrest r' hr'),
      hview]

/-- Whether the view gets there is decided in the first round. -/
theorem converges_iff_step (hx : x.Inv) : Converges x connected ↔
    ∀ r : Round, r.Steady x connected → (step x r).view = x.others connected := by
  have hrest {r : Round} (hr : r.Steady x connected) {rounds : List Round}
      (hrounds : ∀ r ∈ rounds, r.Steady x connected) :
      (run step x (r :: rounds)).view = (step x r).view := by
    obtain ⟨failures, hmanager⟩ := step_manager (r := r) hx.canSend
    have hprevious : (step x r).manager.previous_connected_peers.toFinset =
        (step x r).others connected := by
      rw [others_step hx, ← hr.current, hmanager]
    exact run_view_of_steady (inv_step hx r) hprevious
      fun r' hr' => (steady_step hx).mpr (hrounds r' hr')
  constructor
  · rintro ⟨n, h⟩ r hr
    have hsteady : ∀ r' ∈ List.replicate n r, r'.Steady x connected := by
      intro r' hr'
      rwa [List.eq_of_mem_replicate hr']
    rw [← hrest hr hsteady]
    apply h
    · rw [List.length_cons, List.length_replicate]
      exact Nat.le_succ n
    · exact List.forall_mem_cons.mpr ⟨hr, hsteady⟩
  · intro h
    refine ⟨1, fun rounds hlen hrounds => ?_⟩
    cases rounds with
    | nil => cases hlen
    | cons r rounds =>
      obtain ⟨hr, hrounds⟩ := List.forall_mem_cons.mp hrounds
      rw [hrest hr hrounds, h r hr]

theorem length_addedPeersSet (hr : r.Steady x connected) :
    (x.manager.addedPeersSet r).length =
      ((x.others connected \ x.manager.previous_connected_peers.toFinset) \
        x.manager.peers_sent_to_session.toFinset).card := by
  rw [← List.toFinset_card_of_nodup AsyncPexManager.nodup_addedPeersSet]
  congr 1
  ext peer
  rw [List.mem_toFinset, AsyncPexManager.mem_addedPeersSet, hr.mem_current, Finset.mem_sdiff,
    Finset.mem_sdiff, List.mem_toFinset, List.mem_toFinset, and_assoc]

theorem nodup_droppedPeersSet (hx : x.Inv) (r : Round) : (x.manager.droppedPeersSet r).Nodup :=
  hx.nodup_previous.filter _

theorem length_droppedPeersSet (hx : x.Inv) (hr : r.Steady x connected) :
    (x.manager.droppedPeersSet r).length =
      (x.manager.previous_connected_peers.toFinset \ x.others connected).card := by
  rw [← List.toFinset_card_of_nodup (nodup_droppedPeersSet hx r)]
  congr 1
  ext peer
  rw [List.mem_toFinset, AsyncPexManager.mem_droppedPeersSet, hr.mem_current, Finset.mem_sdiff,
    List.mem_toFinset]

/-- Up to the limit a whole set is sent. -/
theorem mem_take_iterSet {order s : List Peer} (hs : s.Nodup)
    (hlen : s.length ≤ max_peers_per_interval) :
    peer ∈ (iterSet order s).take max_peers_per_interval ↔ peer ∈ s := by
  rw [List.take_of_length_le (by rwa [length_iterSet hs]), mem_iterSet]

/-- Above the limit each item can be the one that is left out. -/
theorem exists_order_notMem_take {s : List Peer} (hs : s.Nodup)
    (hlen : max_peers_per_interval < s.length) (h : peer ∈ s) :
    ∃ order, peer ∉ (iterSet order s).take max_peers_per_interval := by
  have hperm : (s.erase peer ++ [peer]).Perm s :=
    (List.perm_append_singleton peer (s.erase peer)).trans (List.perm_cons_erase h).symm
  have herase : max_peers_per_interval ≤ (s.erase peer).length := by
    rw [List.length_erase_of_mem h]
    exact Nat.le_sub_one_of_lt hlen
  refine ⟨s.erase peer ++ [peer], fun hin => ?_⟩
  rw [iterSet_of_perm hperm hs, List.take_append_of_le_length herase] at hin
  exact hs.not_mem_erase (List.mem_of_mem_take hin)

/-- A successful round in which the dropped peers come in some order. -/
theorem exists_steady (x : Exchange) (connected dropped_order : List Peer) :
    ∃ r : Round, r.Steady x connected ∧ r.dropped_order = dropped_order :=
  ⟨{ connected_peers := some connected, dropped_order := dropped_order, send_added := some true,
     send_dropped := some true }, ⟨rfl, rfl, rfl⟩, rfl⟩

theorem Settles.step_view (hx : x.Inv) (h : Settles x connected) (hr : r.Steady x connected) :
    (step x r).view = x.others connected := by
  rw [step_view_eq_iff hx hr]
  constructor
  · intro peer hpeer
    obtain ⟨hin, hout⟩ := Finset.mem_sdiff.mp hpeer
    have hunknown : ¬(peer ∈ x.manager.previous_connected_peers ∨
        peer ∈ x.manager.peers_sent_to_session) := fun hknown => hout (h.known_held peer hin hknown)
    rw [not_or] at hunknown
    rw [List.mem_toFinset, AsyncPexManager.pexPeersToAdd,
      mem_take_iterSet AsyncPexManager.nodup_addedPeersSet
        ((length_addedPeersSet hr).trans_le h.new_le)]
    exact AsyncPexManager.mem_addedPeersSet.mpr ⟨hr.mem_current.mpr hin, hunknown⟩
  · intro peer hpeer
    rcases h.gone_le with hsub | hgone
    · obtain ⟨hin, hout⟩ := Finset.mem_sdiff.mp hpeer
      exact absurd (hsub hin) hout
    · rw [List.mem_toFinset, AsyncPexManager.pexPeersToDrop,
        mem_take_iterSet (nodup_droppedPeersSet hx r)
          ((length_droppedPeersSet hx hr).trans_le hgone)]
      refine AsyncPexManager.mem_droppedPeersSet.mpr ⟨h.excess_previous peer hpeer, fun hin => ?_⟩
      exact (Finset.mem_sdiff.mp hpeer).2 (hr.mem_current.mp hin)

/-- What must hold before the first round when the view is right after it, whatever order the sets
come in. -/
theorem settles_of_step_view (hx : x.Inv)
    (h : ∀ r : Round, r.Steady x connected → (step x r).view = x.others connected) :
    Settles x connected := by
  obtain ⟨r, hr, -⟩ := exists_steady x connected []
  obtain ⟨hmissing, hexcess⟩ := (step_view_eq_iff hx hr).mp (h r hr)
  refine ⟨?_, fun peer hin hknown => ?_, fun peer hpeer => ?_, ?_⟩
  · rw [← length_addedPeersSet hr, ← List.toFinset_card_of_nodup AsyncPexManager.nodup_addedPeersSet]
    have hsub : (x.manager.addedPeersSet r).toFinset ⊆ (x.manager.pexPeersToAdd r).toFinset := by
      intro peer hpeer
      obtain ⟨hin, -, hunsent⟩ := AsyncPexManager.mem_addedPeersSet.mp (List.mem_toFinset.mp hpeer)
      refine hmissing (Finset.mem_sdiff.mpr ⟨hr.mem_current.mp hin, fun hview => ?_⟩)
      exact hunsent (hx.view_sent peer hview)
    refine (Finset.card_le_card hsub).trans ((List.toFinset_card_le _).trans ?_)
    exact (List.length_take_le _ _)
  · by_contra hout
    have hadded := hmissing (Finset.mem_sdiff.mpr ⟨hin, hout⟩)
    have hnew := AsyncPexManager.mem_addedPeersSet.mp
      (AsyncPexManager.mem_addedPeersSet_of_toAdd (List.mem_toFinset.mp hadded))
    exact hknown.elim hnew.2.1 hnew.2.2
  · have hdropped := List.mem_toFinset.mp (hexcess hpeer)
    exact (AsyncPexManager.mem_droppedPeersSet.mp
      (AsyncPexManager.mem_droppedPeersSet_of_toDrop hdropped)).1
  · by_contra hboth
    rw [not_or, Nat.not_le, Finset.not_subset] at hboth
    obtain ⟨⟨peer, hin, hout⟩, hgone⟩ := hboth
    have hpeer := Finset.mem_sdiff.mpr ⟨hin, hout⟩
    have hdropped := AsyncPexManager.mem_droppedPeersSet_of_toDrop
      (List.mem_toFinset.mp (hexcess hpeer))
    rw [← length_droppedPeersSet hx hr] at hgone
    obtain ⟨order, horder⟩ := exists_order_notMem_take (nodup_droppedPeersSet hx r) hgone hdropped
    -- The same round with the peer last in the order of the dropped ones.
    have hr' : Round.Steady x connected { r with dropped_order := order } :=
      ⟨hr.current, hr.added, hr.dropped⟩
    have hexcess' := ((step_view_eq_iff hx hr').mp (h _ hr')).2
    exact horder (List.mem_toFinset.mp (hexcess' hpeer))

theorem converges_iff_settles (hx : x.Inv) : Converges x connected ↔ Settles x connected := by
  rw [converges_iff_step hx]
  exact ⟨settles_of_step_view hx, fun h r hr => h.step_view hx hr⟩

end Convergence

section Sessions

/-- A session to which nothing has been sent. -/
def Exchange.new (session : PexSession) (send_pex_callback : Bool) : Exchange where
  manager := { session := session, send_pex_callback := send_pex_callback }

theorem inv_new {session : PexSession} {send_pex_callback : Bool}
    (h : (Exchange.new session send_pex_callback).manager.CanSend) :
    (Exchange.new session send_pex_callback).Inv where
  canSend := h
  view_sent := fun _ hpeer => absurd hpeer (Finset.notMem_empty _)
  nodup_previous := List.nodup_nil

/-- Whatever the rounds so far, the remote peer holds only peers that were connected at one of them.
It comes to hold those that stay connected exactly when they settle. -/
theorem view_connected_and_converges_iff (session : PexSession) (send_pex_callback : Bool)
    (h : (Exchange.new session send_pex_callback).manager.CanSend) (rounds : List Round)
    (connected : List Peer) :
    (∀ peer ∈ (run step (Exchange.new session send_pex_callback) rounds).view,
      ∃ r ∈ rounds, peer ∈ r.connected_peers.getD []) ∧
    (Converges (run step (Exchange.new session send_pex_callback) rounds) connected ↔
      Settles (run step (Exchange.new session send_pex_callback) rounds) connected) := by
  refine ⟨fun peer hpeer => ?_, converges_iff_settles (inv_run (inv_new h) rounds)⟩
  exact (connected_of_mem_view (inv_new h) hpeer).resolve_left (Finset.notMem_empty peer)

/-- `10.0.0.7:6881` -/
def somePeer : Peer := ⟨⟨[10, 0, 0, 7], rfl⟩, 6881⟩

def someSession : PexSession :=
  { peer_key := "10.0.0.2:6881".toList, ut_pex_id := some 1, is_supported := true }

/-- A round with successful sends. -/
def goodRound (connected : List Peer) : Round :=
  { connected_peers := some connected, send_added := some true, send_dropped := some true }

theorem converges_iff_one_round :
    Converges (run step (Exchange.new someSession true) [goodRound [somePeer]]) [somePeer] ↔
      Settles (run step (Exchange.new someSession true) [goodRound [somePeer]]) [somePeer] :=
  (view_connected_and_converges_iff someSession true ⟨rfl, by decide, rfl⟩
    [goodRound [somePeer]] [somePeer]).2

/-- A peer that has gone and comes back is never sent again. -/
theorem not_converges_reconnected :
    ¬∀ (session : PexSession) (send_pex_callback : Bool),
      (Exchange.new session send_pex_callback).manager.CanSend →
      ∀ (rounds : List Round) (connected : List Peer),
        Converges (run step (Exchange.new session send_pex_callback) rounds) connected := by
  intro h
  have hsend : (Exchange.new someSession true).manager.CanSend := ⟨rfl, by decide, rfl⟩
  have hconverges := h someSession true hsend [goodRound [somePeer], goodRound []] [somePeer]
  have hsettles := (converges_iff_settles (inv_run (inv_new hsend) _)).mp hconverges
  exact absurd (hsettles.known_held somePeer) (by decide)

end Sessions

end Ccbt.Pex
