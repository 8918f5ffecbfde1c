import Mathlib.Data.BitVec
import Vrouter.Lib.Reach

/-! # The data window of a packet

A translation of `pkt_push`, `pkt_pull`, `pkt_pull_tail` and `pkt_reserve_head_space` of
`vr_packet.h`.  The offsets of a packet have sixteen bits and the lengths thirty-two, so a sum of the
two may wrap.  `pkt_pull` stays inside the window even then; `pkt_pull_tail` does not, and
`pkt_reserve_head_space` shortens a window that has data without noting its length
(`window_left`).  Apart from these calls the window is always well formed (`window_kept`). -/

namespace Vrouter.Packet

open Vrouter.Lib

/-- The offsets of a `struct vr_packet`, and the length of its data. -/
structure Window where
  vpData : BitVec 16
  vpTail : BitVec 16
  vpLen : BitVec 16
  vpEnd : BitVec 16
  deriving DecidableEq, Repr

variable (pkt : Window) (len : BitVec 32)

/-- Each function returns the offset that its pointer has from `vp_head`, or `none` for `NULL`. -/
abbrev PktResult := Option ℕ × Window

def pktPull : PktResult :=
  if pkt.vpData.setWidth 32 + len > pkt.vpTail.setWidth 32 then (none, pkt)
  else
    let pkt := { pkt with
      vpData := pkt.vpData + len.setWidth 16
      vpLen := pkt.vpLen - len.setWidth 16 }
    (some pkt.vpData.toNat, pkt)

def pktPullTail : PktResult :=
  if pkt.vpTail.setWidth 32 + len > pkt.vpEnd.setWidth 32 then (none, pkt)
  else
    let pkt := { pkt with
      vpTail := pkt.vpTail + len.setWidth 16
      vpLen := pkt.vpLen + len.setWidth 16 }
    (some pkt.vpTail.toNat, pkt)

def pktPush : PktResult :=
  if len > pkt.vpData.setWidth 32 then (none, pkt)
  else
    let pkt := { pkt with
      vpData := pkt.vpData - len.setWidth 16
      vpLen := pkt.vpLen + len.setWidth 16 }
    (some pkt.vpData.toNat, pkt)

/-- The sums are those of `int`, which do not wrap. -/
def pktReserveHeadSpace (len : BitVec 16) : PktResult :=
  if pkt.vpData.toNat + len.toNat > pkt.vpEnd.toNat then (none, pkt)
  else
    let pkt := if pkt.vpData = pkt.vpTail then { pkt with vpTail := pkt.vpTail + len } else pkt
    if pkt.vpData.toNat + len.toNat > pkt.vpTail.toNat then (none, pkt)
    else
      let pkt := { pkt with vpData := pkt.vpData + len }
      (some pkt.vpData.toNat, pkt)

inductive PktOp
  | push
  | pull
  | pullTail
  | reserveHeadSpace
  deriving DecidableEq, Repr

/-- A call; `pkt_reserve_head_space` takes the low half of the length. -/
def PktOp.call : PktOp → BitVec 32 → Window → PktResult
  | .push, len, pkt => pktPush pkt len
  | .pull, len, pkt => pktPull pkt len
  | .pullTail, len, pkt => pktPullTail pkt len
  | .reserveHeadSpace, len, pkt => pktReserveHeadSpace pkt (len.setWidth 16)

/-- The window lies in the buffer and has the length that is noted. -/
structure Window.Wf (pkt : Window) : Prop where
  data : pkt.vpData ≤ pkt.vpTail
  tail : pkt.vpTail ≤ pkt.vpEnd
  len : pkt.vpLen = pkt.vpTail - pkt.vpData

/-- The condition on a call: the tail does not wrap, or does not come to lie before the data, and head
space is reserved in an empty window, or by no bytes at all, or by more than there are. -/
def Tame (pkt : Window) : PktOp × BitVec 32 → Prop
  | (.pullTail, len) => pkt.vpTail.toNat + len.toNat < 2 ^ 32 ∨
      pkt.vpData.toNat + 2 ^ 32 ≤ pkt.vpTail.toNat + len.toNat
  | (.reserveHeadSpace, len) => pkt.vpData = pkt.vpTail ∨ len.setWidth 16 = 0#16 ∨
      pkt.vpTail.toNat < pkt.vpData.toNat + (len.setWidth 16).toNat
  | _ => True

instance (pkt : Window) : ∀ c, Decidable (Tame pkt c)
  | (.pullTail, _) => inferInstanceAs (Decidable (_ ∨ _))
  | (.reserveHeadSpace, _) => inferInstanceAs (Decidable (_ ∨ _ ∨ _))
  | (.push, _) | (.pull, _) => .isTrue trivial

/-- A call fails and changes nothing, or it leaves a well-formed window. -/
def Keeps (pkt : Window) (r : PktResult) : Prop := r = (none, pkt) ∨ (r.1.isSome ∧ r.2.Wf)

variable {pkt len}

theorem pktPush_keeps (h : pkt.Wf) : Keeps pkt (pktPush pkt len) := by
  obtain ⟨hdata, htail, hlen⟩ := h
  unfold pktPush
  split_ifs with hlong
  · exact .inl rfl
  · refine .inr ⟨rfl, ?_, htail, ?_⟩ <;> dsimp only <;> bv_omega

/-- The sum that is compared is the new offset, whether it wraps or not. -/
theorem pktPull_keeps (h : pkt.Wf) : Keeps pkt (pktPull pkt len) := by
  obtain ⟨hdata, htail, hlen⟩ := h
  unfold pktPull
  split_ifs with hlong
  · exact .inl rfl
  · refine .inr ⟨rfl, ?_, htail, ?_⟩ <;> dsimp only <;> bv_omega

theorem pktPullTail_keeps_iff (h : pkt.Wf) :
    Keeps pkt (pktPullTail pkt len) ↔ Tame pkt (.pullTail, len) := by
  obtain ⟨hdata, htail, hlen⟩ := h
  simp only [Tame]
  unfold pktPullTail
  split_ifs with hlong
  · -- a sum that wraps is not beyond the tail
    refine iff_of_true (.inl rfl) (.inl ?_)
    bv_omega
  · constructor
    · rintro (hnone | ⟨-, hwf⟩)
      · cases hnone
      · have hnew := hwf.data
        dsimp only at hnew
        bv_omega
    · intro htame
      refine .inr ⟨rfl, ?_, ?_, ?_⟩ <;> dsimp only <;> bv_omega

theorem pktReserveHeadSpace_keeps_iff (h : pkt.Wf) :
    Keeps pkt (pktReserveHeadSpace pkt (len.setWidth 16)) ↔ Tame pkt (.reserveHeadSpace, len) := by
  obtain ⟨hdata, htail, hlen⟩ := h
  simp only [Tame]
  generalize len.setWidth 16 = len
  unfold pktReserveHeadSpace
  by_cases hempty : pkt.vpData = pkt.vpTail
  · -- the tail moves along with the data, so the second check never fails
    rw [if_pos hempty]
    dsimp only
    refine iff_of_true ?_ (.inl hempty)
    split_ifs with hlong
    · exact .inl rfl
    · bv_omega
    · refine .inr ⟨rfl, ?_, ?_, ?_⟩ <;> bv_omega
  · rw [if_neg hempty]
    dsimp only
    split_ifs with hlong hlong'
    · exact iff_of_true (.inl rfl) (.inr (.inr (by bv_omega)))
    · exact iff_of_true (.inl rfl) (.inr (.inr hlong'))
    · constructor
      · -- the old length fits the new window only if nothing was reserved
        rintro (hnone | ⟨-, hwf⟩)
        · cases hnone
        · have hnew := hwf.len
          dsimp only at hnew
          exact .inr (.inl (by bv_omega))
      · rintro (h | rfl | h)
        · exact absurd h hempty
        · exact .inr ⟨rfl, by simpa using hdata, htail, by simpa using hlen⟩
        · exact absurd h hlong'

theorem call_keeps_iff (h : pkt.Wf) :
    ∀ c : PktOp × BitVec 32, Keeps pkt (c.1.call c.2 pkt) ↔ Tame pkt c
  | (.push, _) => iff_of_true (pktPush_keeps h) trivial
  | (.pull, _) => iff_of_true (pktPull_keeps h) trivial
  | (.pullTail, _) => pktPullTail_keeps_iff h
  | (.reserveHeadSpace, _) => pktReserveHeadSpace_keeps_iff h

/-- **The window stays in the buffer.**  A packet that tame calls have made of a well-formed one is well
formed; and a call fails and changes nothing, or leaves a well-formed packet, if and only if it is
tame. -/
theorem window_kept {pkt₀ : Window} (h₀ : pkt₀.Wf)
    (h : Reach (fun pkt c => some (c.1.call c.2 pkt).2) Tame pkt₀ pkt) :
    pkt.Wf ∧ ∀ c, Keeps pkt (c.1.call c.2 pkt) ↔ Tame pkt c := by
  have hwf : pkt.Wf := by
    refine h.invariant h₀ fun pkt c pkt' hwf htame hstep => ?_
    cases hstep
    obtain hsame | ⟨-, hnew⟩ := (call_keeps_iff hwf c).mpr htame
    · rw [hsame]
      exact hwf
    · exact hnew
  exact ⟨hwf, call_keeps_iff hwf⟩

/-- A packet of a hundred bytes behind a hundred bytes of head space. -/
def window100 : Window := ⟨100, 200, 100, 300⟩

/-- A header is taken off, bytes are appended, the tail is moved back by a length that wraps, and another
header is put in front. -/
def reheaded : List (PktOp × BitVec 32) :=
  [(.pull, 20), (.pullTail, 50), (.pullTail, 2 ^ 32 - 60), (.push, 14)]

theorem window_kept_reheaded :
    ∃ pkt, runWhen (fun pkt (c : PktOp × BitVec 32) => some (c.1.call c.2 pkt).2) Tame reheaded
        window100 = some pkt ∧
      pkt = ⟨106, 190, 84, 300⟩ ∧ pkt.Wf ∧ Keeps pkt (PktOp.pullTail.call (2 ^ 32 - 50) pkt) ∧
      ¬ Keeps pkt (PktOp.pullTail.call (2 ^ 32 - 150) pkt) := by
  obtain ⟨pkt, hrun, rfl⟩ : ∃ pkt, runWhen (fun pkt (c : PktOp × BitVec 32) =>
      some (c.1.call c.2 pkt).2) Tame reheaded window100 = some pkt ∧ pkt = ⟨106, 190, 84, 300⟩ :=
    exists_of_decide (by decide)
  have h := window_kept ⟨by decide, by decide, by decide⟩ (Reach.init.of_runWhen hrun)
  exact ⟨_, hrun, rfl, h.1, (h.2 (.pullTail, 2 ^ 32 - 50)).mpr (by decide),
    mt (h.2 (.pullTail, 2 ^ 32 - 150)).mp (by decide)⟩

/-- Reserving head space leaves the old length, and a tail that wraps ends before the data. -/
theorem window_left : window100.Wf ∧
    PktOp.reserveHeadSpace.call 10 window100 = (some 110, ⟨110, 200, 100, 300⟩) ∧
    PktOp.pullTail.call (2 ^ 32 - 150) window100 = (some 50, ⟨100, 50, 65486, 300⟩) ∧
    ¬ Window.Wf ⟨110, 200, 100, 300⟩ ∧ ¬ Window.Wf ⟨100, 50, 65486, 300⟩ :=
  ⟨⟨by decide, by decide, by decide⟩, by decide, by decide, fun h => absurd h.len (by decide),
    fun h => absurd h.data (by decide)⟩

end Vrouter.Packet
