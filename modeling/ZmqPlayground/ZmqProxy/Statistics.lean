import Mathlib.Algebra.BigOperators.Group.List.Basic
import Mathlib.Algebra.GroupWithZero.Nat
import Mathlib.Data.List.Induction

/-! The statistics of the proxy and the gauges its main loop keeps of them.

The counters of a reply are totals, and a gauge is only ever incremented. The loop
means to add what has been counted since the previous reply, but it declares that
reply anew in each turn.
-/

set_option autoImplicit false

namespace ZmqPlayground

structure ProxyStats where
  frontEndRxMsgs : UInt64
  frontEndRxBytes : UInt64
  frontEndTxMsgs : UInt64
  frontEndTxBytes : UInt64
  backEndRxMsgs : UInt64
  backEndRxBytes : UInt64
  backEndTxMsgs : UInt64
  backEndTxBytes : UInt64
  deriving DecidableEq

namespace ProxyStats

def init : ProxyStats := ⟨0, 0, 0, 0, 0, 0, 0, 0⟩

end ProxyStats

/-- What `recv_multipart` returned: no result, or the frames of a message. -/
abbrev Reply := Option (List UInt64)

/-- `Proxy::Stats` with the statistics its argument holds before the call. -/
def Proxy.stats (stats : ProxyStats) : Reply → ProxyStats
  | some [frame0, frame1, frame2, frame3, frame4, frame5, frame6, frame7] =>
      { frontEndRxMsgs := frame0
        frontEndRxBytes := frame1
        frontEndTxMsgs := frame2
        frontEndTxBytes := frame3
        backEndRxMsgs := frame4
        backEndRxBytes := frame5
        backEndTxMsgs := frame6
        backEndTxBytes := frame7 }
  | _ => stats

structure Gauges where
  feRxMsgs : ℕ
  feTxMsgs : ℕ
  beRxMsgs : ℕ
  beTxMsgs : ℕ
  feRxBytes : ℕ
  feTxBytes : ℕ
  beRxBytes : ℕ
  beTxBytes : ℕ
  deriving DecidableEq

namespace Gauges

def init : Gauges := ⟨0, 0, 0, 0, 0, 0, 0, 0⟩

def increment (gauges : Gauges) (stats lastStats : ProxyStats) : Gauges where
  feRxMsgs := gauges.feRxMsgs + (stats.frontEndRxMsgs - lastStats.frontEndRxMsgs).toNat
  feTxMsgs := gauges.feTxMsgs + (stats.frontEndTxMsgs - lastStats.frontEndTxMsgs).toNat
  beRxMsgs := gauges.beRxMsgs + (stats.backEndRxMsgs - lastStats.backEndRxMsgs).toNat
  beTxMsgs := gauges.beTxMsgs + (stats.backEndTxMsgs - lastStats.backEndTxMsgs).toNat
  feRxBytes := gauges.feRxBytes + (stats.frontEndRxBytes - lastStats.frontEndRxBytes).toNat
  feTxBytes := gauges.feTxBytes + (stats.frontEndTxBytes - lastStats.frontEndTxBytes).toNat
  beRxBytes := gauges.beRxBytes + (stats.backEndRxBytes - lastStats.backEndRxBytes).toNat
  beTxBytes := gauges.beTxBytes + (stats.backEndTxBytes - lastStats.backEndTxBytes).toNat

/-- The body of the loop. Both statistics are local to it, so that the assignment of `stats` to
`lastStats` at its end is lost. -/
def turn (gauges : Gauges) (reply : Reply) : Gauges :=
  let lastStats := ProxyStats.init
  let stats := Proxy.stats .init reply
  gauges.increment stats lastStats

end Gauges

inductive Counter where
  | feRxMsgs
  | feTxMsgs
  | beRxMsgs
  | beTxMsgs
  | feRxBytes
  | feTxBytes
  | beRxBytes
  | beTxBytes
  deriving DecidableEq

def ProxyStats.counter (stats : ProxyStats) : Counter → UInt64
  | .feRxMsgs => stats.frontEndRxMsgs
  | .feTxMsgs => stats.frontEndTxMsgs
  | .beRxMsgs => stats.backEndRxMsgs
  | .beTxMsgs => stats.backEndTxMsgs
  | .feRxBytes => stats.frontEndRxBytes
  | .feTxBytes => stats.frontEndTxBytes
  | .beRxBytes => stats.backEndRxBytes
  | .beTxBytes => stats.backEndTxBytes

def Gauges.value (gauges : Gauges) : Counter → ℕ
  | .feRxMsgs => gauges.feRxMsgs
  | .feTxMsgs => gauges.feTxMsgs
  | .beRxMsgs => gauges.beRxMsgs
  | .beTxMsgs => gauges.beTxMsgs
  | .feRxBytes => gauges.feRxBytes
  | .feTxBytes => gauges.feTxBytes
  | .beRxBytes => gauges.beRxBytes
  | .beTxBytes => gauges.beTxBytes

theorem ProxyStats.ext_counter {first second : ProxyStats}
    (same : ∀ counter, first.counter counter = second.counter counter) : first = second := by
  obtain ⟨_, _, _, _, _, _, _, _⟩ := first
  obtain ⟨_, _, _, _, _, _, _, _⟩ := second
  simp only [mk.injEq]
  exact ⟨same .feRxMsgs, same .feRxBytes, same .feTxMsgs, same .feTxBytes, same .beRxMsgs,
    same .beRxBytes, same .beTxMsgs, same .beTxBytes⟩

@[simp] theorem ProxyStats.counter_init (counter : Counter) : init.counter counter = 0 := by
  cases counter <;> rfl

@[simp] theorem Gauges.value_init (counter : Counter) : init.value counter = 0 := by
  cases counter <;> rfl

theorem Gauges.value_increment (gauges : Gauges) (stats lastStats : ProxyStats) (counter : Counter) :
    (gauges.increment stats lastStats).value counter =
      gauges.value counter + (stats.counter counter - lastStats.counter counter).toNat := by
  cases counter <;> rfl

def Reply.good : Reply → Option ProxyStats
  | some frames => if frames.length = 8 then some (Proxy.stats .init (some frames)) else none
  | none => none

theorem Proxy.stats_init (reply : Reply) : Proxy.stats .init reply = (Reply.good reply).getD .init := by
  cases reply with
  | none => rfl
  | some frames =>
      rw [Reply.good]
      split
      · rfl
      · rename_i bad
        unfold Proxy.stats
        split
        · rename_i same
          cases same
          exact absurd rfl bad
        · rfl

theorem value_foldl (replies : List Reply) (counter : Counter) :
    (replies.foldl Gauges.turn .init).value counter =
      ((replies.filterMap Reply.good).map fun stats => (stats.counter counter).toNat).sum := by
  induction replies using List.reverseRecOn with
  | nil => exact Gauges.value_init counter
  | append_singleton replies reply ih =>
      rw [List.foldl_append, List.foldl_cons, List.foldl_nil, Gauges.turn, Gauges.value_increment, ih,
        Proxy.stats_init, ProxyStats.counter_init, List.filterMap_append, List.map_append,
        List.sum_append]
      cases found : Reply.good reply <;> simp [found]

/-- After every turn each gauge is the value of its counter in the latest good reply. -/
def Tracks (replies : List Reply) : Prop :=
  ∀ past, past <+: replies → ∀ stats ∈ (past.filterMap Reply.good).getLast?, ∀ counter,
    (past.foldl Gauges.turn .init).value counter = (stats.counter counter).toNat

def NeverDecreases (replies : List Reply) : Prop :=
  (replies.filterMap Reply.good).Pairwise fun before after =>
    ∀ counter, before.counter counter ≤ after.counter counter

theorem value_of_latest {past : List Reply} {earlier : List ProxyStats} {latest : ProxyStats}
    (goods : past.filterMap Reply.good = earlier ++ [latest]) (counter : Counter) :
    (past.foldl Gauges.turn .init).value counter =
      (earlier.map fun stats => (stats.counter counter).toNat).sum + (latest.counter counter).toNat := by
  rw [value_foldl, goods, List.map_append, List.sum_append, List.map_singleton, List.sum_singleton]

/-- The gauges follow the replies exactly if all good replies but the last are zero throughout. -/
theorem tracks_iff (replies : List Reply) :
    Tracks replies ↔ ∀ stats ∈ (replies.filterMap Reply.good).dropLast, stats = .init := by
  constructor
  · intro tracks stats member
    rcases List.eq_nil_or_concat (replies.filterMap Reply.good) with empty | ⟨earlier, latest, goods⟩
    · rw [empty] at member
      cases member
    · rw [List.concat_eq_append] at goods
      rw [goods, List.dropLast_concat] at member
      refine ProxyStats.ext_counter fun counter => ?_
      -- The gauge holds the sum of all good replies; if that is the last one, the others are zero.
      have follows := tracks replies List.prefix_rfl latest (by simp [goods]) counter
      rw [value_of_latest goods counter] at follows
      have zero : (earlier.map fun stats => (stats.counter counter).toNat).sum = 0 := by omega
      have none := List.sum_eq_zero_iff_forall_eq_nat.mp zero _ (List.mem_map_of_mem member)
      rw [ProxyStats.counter_init, ← UInt64.toNat_inj]
      exact none
  · rintro zero past ⟨rest, rfl⟩ latest isLast counter
    obtain ⟨earlier, goods⟩ := List.getLast?_eq_some_iff.mp isLast
    rw [value_of_latest goods counter]
    have none : ∀ stats ∈ earlier, stats = .init := by
      intro stats member
      refine zero stats ?_
      rw [List.filterMap_append, goods, List.append_assoc,
        List.dropLast_append_of_ne_nil (by simp)]
      exact List.mem_append.mpr (.inl member)
    have sum : (earlier.map fun stats => (stats.counter counter).toNat).sum = 0 := by
      refine List.sum_eq_zero fun value found => ?_
      obtain ⟨stats, member, rfl⟩ := List.mem_map.mp found
      rw [none stats member, ProxyStats.counter_init]
      rfl
    rw [sum, Nat.zero_add]

/-- A message is counted again by every later reply. -/
theorem second_reply_doubles :
    NeverDecreases [some [1, 5, 0, 0, 0, 0, 0, 0], some [1, 5, 0, 0, 0, 0, 0, 0]] ∧
      ¬ Tracks [some [1, 5, 0, 0, 0, 0, 0, 0], some [1, 5, 0, 0, 0, 0, 0, 0]] := by
  refine ⟨?_, fun tracks => ?_⟩
  · exact List.pairwise_pair.mpr fun counter => UInt64.le_refl _
  · have doubled := tracks _ List.prefix_rfl ⟨1, 5, 0, 0, 0, 0, 0, 0⟩ rfl .feRxMsgs
    exact absurd doubled (by decide)

end ZmqPlayground
