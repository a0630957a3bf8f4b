import Ccbt.Python.Dict
import Ccbt.Transition.Run
import Mathlib.Algebra.Order.Group.Defs
import Mathlib.Algebra.Order.Sub.Basic

/-!
# Sightings that expire

Members are seen under topics, or leave them. A board holds for each topic the members with the time
at which they were last seen, and drops what has become older than a window whenever the topic is used.
What it holds then are the members that have been seen within the window and have not left since.
Entries with a deadline may be dropped at any time once it has passed: nothing shows the difference.
-/

namespace Expiry

open Python

variable {τ κ θ : Type*} [LinearOrder τ] [DecidableEq κ] [DecidableEq θ]

/-- A member is seen, or leaves. -/
structure Sighting (τ κ : Type*) where
  member : κ
  leaves : Bool
  time : τ

section History

section SeenSince

variable {α β : Type*} {IsOf : α → Prop} {leaves : α → Bool} {time : α → τ} {since : τ}

/-- Something of this kind has happened since a time, and has not been revoked after that. The latest
comes first. -/
def SeenSince (IsOf : α → Prop) (leaves : α → Bool) (time : α → τ) (history : List α)
    (since : τ) : Prop :=
  ∃ later a earlier, history = later ++ a :: earlier ∧ IsOf a ∧ leaves a = false ∧
    since ≤ time a ∧ ∀ a' ∈ later, IsOf a' → leaves a' = false

theorem seenSince_nil : ¬SeenSince IsOf leaves time [] since := by
  rintro ⟨later, a, earlier, heq, -⟩
  exact absurd heq (by simp)

theorem seenSince_cons (a : α) (history : List α) :
    SeenSince IsOf leaves time (a :: history) since ↔
      (IsOf a ∧ leaves a = false ∧ since ≤ time a) ∨
        ((IsOf a → leaves a = false) ∧ SeenSince IsOf leaves time history since) := by
  constructor
  · rintro ⟨later, a', earlier, heq, hof, hstays, hsince, hlater⟩
    cases later with
    | nil =>
      cases heq
      exact .inl ⟨hof, hstays, hsince⟩
    | cons b later =>
      cases heq
      obtain ⟨hhead, hlater⟩ := List.forall_mem_cons.mp hlater
      exact .inr ⟨hhead, later, a', earlier, rfl, hof, hstays, hsince, hlater⟩
  · rintro (⟨hof, hstays, hsince⟩ | ⟨hhead, later, a', earlier, rfl, hof, hstays, hsince, hlater⟩)
    · exact ⟨[], a, history, rfl, hof, hstays, hsince, nofun⟩
    · exact ⟨a :: later, a', earlier, rfl, hof, hstays, hsince,
        List.forall_mem_cons.mpr ⟨hhead, hlater⟩⟩

theorem seenSince_map (f : β → α) (history : List β) :
    SeenSince IsOf leaves time (history.map f) since ↔
      SeenSince (fun b => IsOf (f b)) (fun b => leaves (f b)) (fun b => time (f b)) history
        since := by
  induction history with
  | nil => exact iff_of_false seenSince_nil seenSince_nil
  | cons b history ih => rw [List.map_cons, seenSince_cons, seenSince_cons, ih]

theorem seenSince_filter (p : α → Bool) (history : List α) :
    SeenSince IsOf leaves time (history.filter p) since ↔
      SeenSince (fun a => p a = true ∧ IsOf a) leaves time history since := by
  induction history with
  | nil => exact iff_of_false seenSince_nil seenSince_nil
  | cons a history ih =>
    rw [seenSince_cons, ← ih]
    cases hp : p a with
    | true => simp [List.filter_cons_of_pos hp, seenSince_cons]
    | false => simp [hp]

theorem seenSince_filterMap (f : β → Option α) {IsOf' : β → Prop} {leaves' : β → Bool}
    {time' : β → τ} (hnone : ∀ b, f b = none → ¬IsOf' b)
    (hsome : ∀ b a, f b = some a → (IsOf a ↔ IsOf' b) ∧ leaves a = leaves' b ∧ time a = time' b)
    (history : List β) : SeenSince IsOf leaves time (history.filterMap f) since ↔
      SeenSince IsOf' leaves' time' history since := by
  induction history with
  | nil => exact iff_of_false seenSince_nil seenSince_nil
  | cons b history ih =>
    rw [seenSince_cons, ← ih]
    cases hf : f b with
    | none => simp [List.filterMap_cons_none hf, hnone b hf]
    | some a =>
      obtain ⟨hof, hleaves, htime⟩ := hsome b a hf
      rw [List.filterMap_cons_some hf, seenSince_cons, hof, hleaves, htime]

/-- When time does not go back, only what has happened since the time counts. -/
theorem seenSince_congr {IsOf' : α → Prop} {history : List α}
    (hordered : history.Pairwise fun later earlier => time earlier ≤ time later)
    (h : ∀ a ∈ history, since ≤ time a → (IsOf a ↔ IsOf' a)) :
    SeenSince IsOf leaves time history since ↔ SeenSince IsOf' leaves time history since := by
  induction history with
  | nil => exact iff_of_false seenSince_nil seenSince_nil
  | cons a history ih =>
    obtain ⟨hlater, hrest⟩ := List.pairwise_cons.mp hordered
    have ih := ih hrest fun a' ha' => h a' (List.mem_cons_of_mem _ ha')
    rw [seenSince_cons, seenSince_cons]
    by_cases hsince : since ≤ time a
    · rw [h a List.mem_cons_self hsince, ih]
    · have hnever (Kind : α → Prop) : ¬SeenSince Kind leaves time history since := by
        rintro ⟨later, a', earlier, rfl, -, -, hsince', -⟩
        exact hsince (hsince'.trans (hlater a' (by simp)))
      exact iff_of_false (by simp [hsince, hnever]) (by simp [hsince, hnever])

/-- The same with the earliest first. -/
theorem seenSince_reverse (history : List α) :
    SeenSince IsOf leaves time history.reverse since ↔
      ∃ earlier a later, history = earlier ++ a :: later ∧ IsOf a ∧ leaves a = false ∧
        since ≤ time a ∧ ∀ a' ∈ later, IsOf a' → leaves a' = false := by
  constructor
  · rintro ⟨later, a, earlier, heq, hrest, hstays, hsince, hlater⟩
    refine ⟨earlier.reverse, a, later.reverse, ?_, hrest, hstays, hsince, ?_⟩
    · rw [← List.reverse_reverse history, heq]
      simp
    · exact fun a' ha' => hlater a' (List.mem_reverse.mp ha')
  · rintro ⟨earlier, a, later, rfl, hrest, hstays, hsince, hlater⟩
    refine ⟨later.reverse, a, earlier.reverse, by simp, hrest, hstays, hsince, ?_⟩
    exact fun a' ha' => hlater a' (List.mem_reverse.mp ha')

end SeenSince

def lastSeen : List (Sighting τ κ) → κ → Option τ
  | [], _ => none
  | s :: history, k =>
    if s.member = k then (if s.leaves then none else some s.time) else lastSeen history k

/-- The times do not decrease; the latest sighting comes first. -/
def Ordered (history : List (Sighting τ κ)) : Prop :=
  history.Pairwise fun later earlier => earlier.time ≤ later.time

/-- Whether a member has been seen lately, is decided by when it was last seen. -/
theorem seenSince_iff {history : List (Sighting τ κ)} (h : Ordered history) {since : τ} {k : κ} :
    SeenSince (fun s => s.member = k) Sighting.leaves Sighting.time history since ↔
      ∃ t, lastSeen history k = some t ∧ since ≤ t := by
  induction history with
  | nil => exact iff_of_false seenSince_nil (by simp [lastSeen])
  | cons s history ih =>
    obtain ⟨hlast, hrest⟩ := List.pairwise_cons.mp h
    rw [seenSince_cons, lastSeen]
    by_cases hmember : s.member = k
    · rw [if_pos hmember]
      cases hleaves : s.leaves with
      | true => simp [hmember]
      | false =>
        rw [if_neg nofun]
        constructor
        · rintro (⟨-, -, hsince⟩ | ⟨-, later, s', earlier, rfl, -, -, hsince, -⟩)
          · exact ⟨s.time, rfl, hsince⟩
          · exact ⟨s.time, rfl, hsince.trans (hlast s' (by simp))⟩
        · rintro ⟨t, ht, hsince⟩
          cases ht
          exact .inl ⟨hmember, rfl, hsince⟩
    · rw [if_neg hmember, ← ih hrest]
      simp [hmember]

end History

section Leases

variable {ν : Type*} (deadline : ν → τ)

/-- What a table has under a key, unless its deadline has passed. -/
def current (d : Dict κ ν) (k : κ) (now : τ) : Option ν :=
  (d.get? k).filter fun v => decide (now ≤ deadline v)

def pastKeys (d : Dict κ ν) (now : τ) : List κ :=
  (d.entries.filter fun e => decide (deadline e.2 < now)).map Prod.fst

/-- What has passed its deadline goes. -/
def dropPast (d : Dict κ ν) (now : τ) : Dict κ ν := (pastKeys deadline d now).foldl Dict.erase d

/-- Two tables that cannot be told apart from a time on. -/
def AgreeFrom (clock : τ) (d d' : Dict κ ν) : Prop :=
  ∀ k now, clock ≤ now → current deadline d k now = current deadline d' k now

variable {deadline} {d d' : Dict κ ν} {k : κ} {clock now after : τ}

theorem current_eq_some_iff {v : ν} :
    current deadline d k now = some v ↔ d.get? k = some v ∧ now ≤ deadline v := by
  rw [current, Option.filter_eq_some_iff, decide_eq_true_eq]

theorem mem_pastKeys : k ∈ pastKeys deadline d now ↔ ∃ v, d.get? k = some v ∧ deadline v < now := by
  simp [pastKeys, Dict.get?_eq_some_iff]

variable (deadline) in
theorem get?_dropPast (d : Dict κ ν) (now : τ) (k : κ) :
    (dropPast deadline d now).get? k = current deadline d k now := by
  rw [dropPast, Dict.get?_foldl_erase]
  ext v
  rw [current_eq_some_iff]
  by_cases hk : k ∈ pastKeys deadline d now
  · rw [if_pos hk]
    obtain ⟨v', hv', hpast⟩ := mem_pastKeys.mp hk
    refine iff_of_false (Option.some_ne_none v).symm ?_
    rintro ⟨hget, hle⟩
    cases hget.symm.trans hv'
    exact hpast.not_ge hle
  · rw [if_neg hk]
    refine (and_iff_left_of_imp fun hget => not_lt.mp fun hpast => ?_).symm
    exact hk (mem_pastKeys.mpr ⟨v, hget, hpast⟩)

variable (deadline) in
theorem size_dropPast (d : Dict κ ν) (now : τ) :
    (dropPast deadline d now).size + (pastKeys deadline d now).length = d.size := by
  apply Dict.size_foldl_erase
  · exact (List.filter_sublist.map Prod.fst).nodup d.nodup_keys
  · intro k hk
    obtain ⟨v, hv, -⟩ := mem_pastKeys.mp hk
    rw [Dict.contains, hv]
    rfl

theorem current_none_later (h : current deadline d k now = none) (hafter : now ≤ after) :
    current deadline d k after = none := by
  rw [Option.eq_none_iff_forall_ne_some] at h ⊢
  intro v hv
  obtain ⟨hget, hle⟩ := current_eq_some_iff.mp hv
  exact h v (current_eq_some_iff.mpr ⟨hget, hafter.trans hle⟩)

theorem AgreeFrom.refl (clock : τ) (d : Dict κ ν) : AgreeFrom deadline clock d d := fun _ _ _ => rfl

theorem AgreeFrom.later (h : AgreeFrom deadline clock d d') (hafter : clock ≤ after) :
    AgreeFrom deadline after d d' := fun k _ hnow => h k _ (hafter.trans hnow)

theorem AgreeFrom.set (h : AgreeFrom deadline clock d d') (k : κ) (v : ν) :
    AgreeFrom deadline clock (d.set k v) (d'.set k v) := by
  intro j now hnow
  simp only [current, Dict.get?_set]
  split
  · rfl
  · exact h j now hnow

theorem AgreeFrom.erase (h : AgreeFrom deadline clock d d') (k : κ) :
    AgreeFrom deadline clock (d.erase k) (d'.erase k) := by
  intro j now hnow
  simp only [current, Dict.get?_erase]
  split
  · rfl
  · exact h j now hnow

/-- An entry whose deadline has passed may be taken out of one table alone. -/
theorem AgreeFrom.erase_past (h : AgreeFrom deadline clock d d')
    (hpast : current deadline d k clock = none) : AgreeFrom deadline clock (d.erase k) d' := by
  intro j now hnow
  rw [← h j now hnow]
  by_cases hj : j = k
  · subst hj
    rw [current_none_later hpast hnow, current, Dict.get?_erase, if_pos rfl]
    rfl
  · rw [current, current, Dict.get?_erase, if_neg hj]

theorem AgreeFrom.dropPast (h : AgreeFrom deadline clock d d') :
    AgreeFrom deadline clock (dropPast deadline d clock) d' := by
  intro j now hnow
  rw [← h j now hnow]
  ext v
  rw [current_eq_some_iff, current_eq_some_iff, get?_dropPast, current_eq_some_iff]
  exact ⟨fun ⟨⟨hget, _⟩, hle⟩ => ⟨hget, hle⟩, fun ⟨hget, hle⟩ => ⟨⟨hget, hnow.trans hle⟩, hle⟩⟩

end Leases

section Store

/-- The members of a topic with the times at which they were last seen. -/
abbrev Store (τ κ : Type*) [DecidableEq κ] := Dict κ τ

/-- The members that were last seen before a time go. -/
def dropBefore (store : Store τ κ) (cutoff : τ) : Store τ κ :=
  ((store.entries.filter fun e => decide (e.2 < cutoff)).map Prod.fst).foldl Dict.erase store

theorem get?_dropBefore (store : Store τ κ) (cutoff : τ) (k : κ) :
    (dropBefore store cutoff).get? k = (store.get? k).filter fun t => decide (cutoff ≤ t) :=
  get?_dropPast id store cutoff k

variable [AddCommGroup τ]

/-- A sighting is recorded, and what has become too old goes. -/
def record (window : τ) (store : Store τ κ) (s : Sighting τ κ) : Store τ κ :=
  dropBefore (if s.leaves then store.erase s.member else store.set s.member s.time)
    (s.time - window)

def Tracks (window : τ) (store : Store τ κ) (history : List (Sighting τ κ)) (now : τ) : Prop :=
  ∀ k, store.get? k = (lastSeen history k).filter fun t => decide (now - window ≤ t)

theorem tracks_empty (window now : τ) : Tracks window (.empty : Store τ κ) [] now := fun _ => rfl

omit [AddCommGroup τ] in
theorem filter_filter_le (t : Option τ) {a b : τ} (h : a ≤ b) :
    ((t.filter fun t => decide (a ≤ t)).filter fun t => decide (b ≤ t)) =
      t.filter fun t => decide (b ≤ t) := by
  ext t'
  simp only [Option.filter_eq_some_iff, decide_eq_true_eq]
  constructor
  · rintro ⟨⟨ht, -⟩, hb⟩
    exact ⟨ht, hb⟩
  · rintro ⟨ht, hb⟩
    exact ⟨⟨ht, h.trans hb⟩, hb⟩

theorem tracks_record [IsOrderedAddMonoid τ] {window now : τ} {store : Store τ κ} {history : List (Sighting τ κ)}
    (h : Tracks window store history now) {s : Sighting τ κ} (hnow : now ≤ s.time) :
    Tracks window (record window store s) (s :: history) s.time := by
  intro k
  rw [record, get?_dropBefore, lastSeen]
  by_cases hmember : s.member = k
  · subst hmember
    rw [if_pos rfl]
    cases s.leaves with
    | true => rw [if_pos rfl, if_pos rfl, Dict.get?_erase, if_pos rfl]
    | false => rw [if_neg nofun, if_neg nofun, Dict.get?_set_self]
  · rw [if_neg hmember]
    have hother : (if s.leaves then store.erase s.member else store.set s.member s.time).get? k =
        store.get? k := by
      split
      · rw [Dict.get?_erase, if_neg (Ne.symm hmember)]
      · rw [Dict.get?_set, if_neg (Ne.symm hmember)]
    rw [hother, h k]
    exact filter_filter_le _ (sub_le_sub_right hnow window)

theorem mem_keys_of_tracks {window now : τ} {store : Store τ κ}
    {history : List (Sighting τ κ)} (h : Tracks window store history now)
    (hordered : Ordered history) {k : κ} :
    k ∈ store.keys ↔ SeenSince (fun s => s.member = k) Sighting.leaves Sighting.time history
      (now - window) := by
  rw [Dict.mem_keys_iff, seenSince_iff hordered]
  simp only [h k, Option.filter_eq_some_iff, decide_eq_true_eq]

end Store

section Board

/-- A sighting under a topic. -/
structure Note (τ κ θ : Type*) extends Sighting τ κ where
  topic : θ

/-- The stores of the topics. -/
abbrev Board (τ κ θ : Type*) [DecidableEq κ] [DecidableEq θ] := Dict θ (Store τ κ)

def storeOf (board : Board τ κ θ) (topic : θ) : Store τ κ := (board.get? topic).getD .empty

def under (topic : θ) (notes : List (Note τ κ θ)) : List (Sighting τ κ) :=
  (notes.filter fun note => note.topic = topic).map Note.toSighting

omit [LinearOrder τ] [DecidableEq κ] in
theorem under_cons_self (note : Note τ κ θ) (notes : List (Note τ κ θ)) :
    under note.topic (note :: notes) = note.toSighting :: under note.topic notes := by
  rw [under, List.filter_cons_of_pos (by simp), List.map_cons, under]

omit [LinearOrder τ] [DecidableEq κ] in
theorem under_cons_of_ne {note : Note τ κ θ} {topic : θ} (h : note.topic ≠ topic)
    (notes : List (Note τ κ θ)) : under topic (note :: notes) = under topic notes := by
  rw [under, List.filter_cons_of_neg (by simpa using h), under]

omit [DecidableEq κ] in
theorem ordered_under {notes : List (Note τ κ θ)}
    (h : notes.Pairwise fun later earlier => earlier.time ≤ later.time) (topic : θ) :
    Ordered (under topic notes) :=
  (h.filter _).map _ fun _ _ hle => hle

variable [AddCommGroup τ]

def post (window : τ) (board : Board τ κ θ) (note : Note τ κ θ) : Board τ κ θ :=
  board.set note.topic (record window (storeOf board note.topic) note.toSighting)

/-- The board behind notes of which the latest comes first. -/
def posted (window : τ) (notes : List (Note τ κ θ)) : Board τ κ θ :=
  notes.foldr (fun note board => post window board note) .empty

theorem storeOf_post (window : τ) (board : Board τ κ θ) (note : Note τ κ θ) (topic : θ) :
    storeOf (post window board note) topic =
      if topic = note.topic then record window (storeOf board topic) note.toSighting
      else storeOf board topic := by
  rw [storeOf, post, Dict.get?_set]
  split
  · subst topic
    rfl
  · rfl

variable [IsOrderedAddMonoid τ]

/-- All stores hold what has been seen lately, as of the last time that they were used. -/
theorem tracks_posted (window : τ) {notes : List (Note τ κ θ)}
    (h : notes.Pairwise fun later earlier => earlier.time ≤ later.time) (topic : θ) {now : τ}
    (hnow : ∀ note ∈ notes, note.time ≤ now) :
    ∃ t ≤ now, Tracks window (storeOf (posted window notes) topic) (under topic notes) t := by
  induction notes generalizing now with
  | nil => exact ⟨now, le_rfl, tracks_empty window now⟩
  | cons note notes ih =>
    obtain ⟨hnote, hnotes⟩ := List.forall_mem_cons.mp hnow
    obtain ⟨hlater, hrest⟩ := List.pairwise_cons.mp h
    rw [posted, List.foldr_cons, storeOf_post]
    by_cases htopic : topic = note.topic
    · subst topic
      obtain ⟨t, ht, htracks⟩ := ih hrest hlater
      rw [if_pos rfl, under_cons_self]
      exact ⟨note.time, hnote, tracks_record htracks ht⟩
    · rw [if_neg htopic, under_cons_of_ne (Ne.symm htopic)]
      exact ih hrest hnotes

/-- Once a note has been posted, the store of its topic has the members that have been seen under the
topic within the window and have not left since. -/
theorem mem_keys_posted_iff (window : τ) {notes : List (Note τ κ θ)} {note : Note τ κ θ}
    (h : (note :: notes).Pairwise fun later earlier => earlier.time ≤ later.time) {k : κ} :
    k ∈ (storeOf (posted window (note :: notes)) note.topic).keys ↔
      SeenSince (fun n : Note τ κ θ => n.topic = note.topic ∧ n.member = k) (fun n => n.leaves)
        (fun n => n.time) (note :: notes) (note.time - window) := by
  obtain ⟨hlater, hrest⟩ := List.pairwise_cons.mp h
  obtain ⟨t, ht, htracks⟩ := tracks_posted window hrest note.topic hlater
  have hposted := tracks_record htracks ht
  have hordered := ordered_under h note.topic
  rw [posted, List.foldr_cons, storeOf_post, if_pos rfl]
  refine (mem_keys_of_tracks hposted (under_cons_self note notes ▸ hordered)).trans ?_
  rw [← under_cons_self, under, seenSince_map, seenSince_filter]
  simp only [decide_eq_true_eq]

end Board

end Expiry
