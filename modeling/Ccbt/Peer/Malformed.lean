import Ccbt.Peer.Stream

/-!
# Frames that do not decode

What becomes of the other frames of a stream when some of its frames do not decode.
-/

namespace Ccbt

open Python

namespace Peer

def streamOf (frames : List Frame) : Bytes := frames.flatMap Frame.encode

/-- What a decoder has handed over so far and what its buffer holds. -/
structure Progress where
  handed : List (Option Message)
  buffer : Bytes

/-- A malformed frame costs only itself. `after n` is the progress after `n` calls; by then the
first `processed n` frames have been processed: those of them that decode have been handed
over, and the buffer holds the beginning of the others. A call that finds a whole frame in the
buffer processes it. In the end every frame that decodes has been handed over. -/
def CostsOnlyItself (other : Fallback) (frames : List Frame) (chunks : List Bytes)
    (after : Nat → Progress) : Prop :=
  ∃ processed : Nat → Nat,
    (∀ n ≤ chunks.length,
      (after n).handed = (messagesOf other (frames.take (processed n))).map some ∧
      (after n).buffer ++ (chunks.drop n).flatten = streamOf (frames.drop (processed n))) ∧
    (∀ n < chunks.length, Frame.split ((after n).buffer ++ chunks.getD n []) ≠ none →
      processed n < processed (n + 1)) ∧
    (after chunks.length).handed = (messagesOf other frames).map some

/-- The progress of a new `AsyncMessageDecoder` after some of the chunks. -/
def AsyncMessageDecoder.after (chunks : List Bytes) (n : Nat) : Progress :=
  let d := Transition.run step { pools := .empty } ((chunks.take n).map .feed)
  ⟨d.output.map (fun ref => d.pools.objects[ref]?), d.buffer⟩

/-- The progress of a new `OptimizedMessageDecoder` after some of the chunks. -/
def OptimizedMessageDecoder.after (chunks : List Bytes) (n : Nat) : Progress :=
  let r := addAll ⟨.empty, []⟩ (chunks.take n)
  ⟨r.1.map (fun ref => r.2.pools.objects[ref]?), r.2.buffer⟩

theorem MessagePools.reads_empty (ms : List Message) :
    (empty.handAll ms).1.map (fun ref => (empty.handAll ms).2.objects[ref]?) = ms.map some := by
  apply (empty.readsBack_iff_noClash ms).mpr
  intro t a ha
  simp [due, empty] at ha

/-- A decoder that takes off the frames of what has arrived, as they come. -/
theorem costsOnlyItself_of_drain {other : Fallback} {frames : List Frame} {chunks : List Bytes}
    {after : Nat → Progress} (hstream : chunks.flatten = streamOf frames)
    (hafter : ∀ n, after n =
      ⟨(messagesOf other (Frame.splitter.drain (chunks.take n).flatten).1).map some,
        (Frame.splitter.drain (chunks.take n).flatten).2⟩) :
    CostsOnlyItself other frames chunks after := by
  have hsplit (n : Nat) : (chunks.take n).flatten ++ (chunks.drop n).flatten = streamOf frames := by
    rw [← List.flatten_append, List.take_append_drop, hstream]
  have hcut (n : Nat) := Framing.Splitter.drain_of_append_eq Frame.splitter_sound rfl
    (fun f _ rest => Frame.splitter_encode f rest) (hsplit n)
  refine ⟨fun n => (Frame.splitter.drain (chunks.take n).flatten).1.length, ?_, ?_, ?_⟩
  · intro n _
    rw [hafter, ← (hcut n).1]
    exact ⟨rfl, (hcut n).2⟩
  · intro n hn hwhole
    have htake : (chunks.take (n + 1)).flatten =
        (chunks.take n).flatten ++ chunks.getD n [] := by
      rw [List.take_add_one, List.flatten_append]
      simp [hn]
    rw [hafter] at hwhole
    dsimp only
    rw [htake, Framing.Splitter.drain_append]
    cases hs : Frame.splitter.split
        ((Frame.splitter.drain (chunks.take n).flatten).2 ++ chunks.getD n []) with
    | none => exact absurd hs hwhole
    | some p =>
      rw [Framing.Splitter.drain_of_some hs]
      simp
  · rw [hafter, List.take_length, hstream]
    have hall := Frame.drain_encode frames
    rw [List.nil_append] at hall
    rw [streamOf, hall]

/-- A malformed frame of a stream costs `AsyncMessageDecoder` only itself. -/
theorem AsyncMessageDecoder.costsOnlyItself {frames : List Frame} {chunks : List Bytes}
    (hstream : chunks.flatten = streamOf frames) :
    CostsOnlyItself unknownMessage frames chunks (after chunks) := by
  apply costsOnlyItself_of_drain hstream
  intro n
  obtain ⟨hbuffer, hpools, houtput⟩ := run_spec (d := { pools := .empty }) rfl
    ((chunks.take n).map .feed)
  rw [fed_map_feed, List.nil_append] at hbuffer hpools houtput
  rw [after, hbuffer, hpools, houtput]
  exact congrArg (Progress.mk · _) (MessagePools.reads_empty _)

theorem OptimizedMessageDecoder.costsOnlyItself_iff_decodes (frames : List Frame) :
    (∀ chunks, chunks.flatten = streamOf frames →
      CostsOnlyItself decodeV2Message frames chunks (after chunks)) ↔
      ∀ f ∈ frames, f.Decodes decodeV2Message := by
  constructor
  · intro h
    by_contra hdec
    obtain ⟨good, f, bad, e, rfl, hgood, he⟩ := exists_first_not_decodes hdec
    have hdrain := Frame.drain_encode (good ++ f :: bad)
    have hloop := addDataLoop_of_not_decodes
      (d := ⟨.empty, [] ++ (good ++ f :: bad).flatMap Frame.encode⟩) le_rfl [] (by rw [hdrain])
      hgood he
    obtain ⟨processed, hafter, hprogress, -⟩ := h [streamOf (good ++ f :: bad)] (by simp)
    -- the one call raises, and what it had decoded is lost
    have hcall : after [streamOf (good ++ f :: bad)] 1 = ⟨[], streamOf (f :: bad)⟩ := by
      have hdata : addData ⟨.empty, []⟩ (streamOf (good ++ f :: bad)) = _ := hloop
      rw [after, List.take_of_length_le (by simp), addAll, hdata, hdrain]
      simp [addAll, streamOf]
    obtain ⟨hhanded, hbuffer⟩ := hafter 1 (by simp)
    rw [hcall] at hhanded hbuffer
    have hdrop : (good ++ f :: bad).drop (processed 1) = f :: bad := by
      have heq : streamOf (f :: bad) = streamOf ((good ++ f :: bad).drop (processed 1)) := by
        simpa using hbuffer
      have hleft := Frame.drain_encode (f :: bad)
      have hright := Frame.drain_encode ((good ++ f :: bad).drop (processed 1))
      rw [← streamOf, ← heq, streamOf, hleft] at hright
      exact (congrArg Prod.fst hright).symm
    have hlength := congrArg List.length hdrop
    simp only [List.length_drop, List.length_append, List.length_cons] at hlength
    have hprocessed : processed 1 = good.length := by omega
    have htake : (good ++ f :: bad).take (processed 1) = good := by
      rw [hprocessed, List.take_left]
    have hnone : good = [] := by
      have := congrArg List.length (htake ▸ hhanded)
      rw [List.length_map, length_messagesOf hgood] at this
      exact List.length_eq_zero_iff.mp this.symm
    subst hnone
    -- so it has processed nothing, with a whole frame in its buffer
    have hwhole : Frame.split ((after [streamOf ([] ++ f :: bad)] 0).buffer ++
        [streamOf ([] ++ f :: bad)].getD 0 []) = some (f, streamOf bad) :=
      Frame.splitter_encode f (streamOf bad)
    have := hprogress 0 Nat.one_pos (by rw [hwhole]; exact Option.some_ne_none _)
    rw [hprocessed] at this
    exact absurd this (Nat.not_lt_zero _)
  · intro hdec chunks hstream
    apply costsOnlyItself_of_drain hstream
    intro n
    have hcut := Framing.Splitter.drain_of_append_eq Frame.splitter_sound rfl
      (fun f _ rest => Frame.splitter_encode f rest)
      (show (chunks.take n).flatten ++ (chunks.drop n).flatten = streamOf frames by
        rw [← List.flatten_append, List.take_append_drop, hstream])
    have hall := @addAll_of_decodes ⟨.empty, []⟩ rfl (chunks.take n) fun f hf =>
      hdec f (List.mem_of_mem_take (hcut.1 ▸ hf))
    rw [after, hall, List.nil_append]
    exact congrArg (Progress.mk · _) (MessagePools.reads_empty _)

/-- A malformed frame costs `AsyncMessageDecoder` only itself in every stream, and
`OptimizedMessageDecoder` in the streams that have none. -/
theorem costsOnlyItself_iff (frames : List Frame) :
    (∀ chunks, chunks.flatten = streamOf frames →
      CostsOnlyItself unknownMessage frames chunks (AsyncMessageDecoder.after chunks)) ∧
    ((∀ chunks, chunks.flatten = streamOf frames →
      CostsOnlyItself decodeV2Message frames chunks (OptimizedMessageDecoder.after chunks)) ↔
      ∀ f ∈ frames, f.Decodes decodeV2Message) :=
  ⟨fun _ hstream => AsyncMessageDecoder.costsOnlyItself hstream,
    OptimizedMessageDecoder.costsOnlyItself_iff_decodes frames⟩

/-- After a choke message, a frame with the unknown type 9 and a have message have arrived at
once, nothing has been handed over, and every later call finds the frame of type 9 again. -/
theorem not_costsOnlyItself_unknownType :
    ¬∀ chunks, chunks.flatten = streamOf [⟨[0], by decide⟩, ⟨[9, 0], by decide⟩,
        ⟨[4, 0, 0, 0, 1], by decide⟩] →
      CostsOnlyItself decodeV2Message [⟨[0], by decide⟩, ⟨[9, 0], by decide⟩,
        ⟨[4, 0, 0, 0, 1], by decide⟩] chunks (OptimizedMessageDecoder.after chunks) := by
  intro h
  obtain ⟨processed, -, -, hhanded⟩ := h
    [[0, 0, 0, 1, 0, 0, 0, 0, 2, 9, 0, 0, 0, 0, 5, 4, 0, 0, 0, 1]] (by decide)
  exact absurd hhanded (by decide +kernel)

end Peer

end Ccbt
