import Mathlib.Data.List.TakeWhile
import Vrouter.Mcast.Model

/-! # What replication does with its packets

Three things are followed through the two levels of loops at once: who has which packet, which
members have got a copy, and with which label and VRF.  `Did` says what a piece of the code did
between two states, and pieces are put together by `Did.trans`; `Round` says it of one round of a
loop, and `Round.loop` turns rounds into loops. -/

namespace Vrouter.Mcast

open Vrouter.Lib Nh

/-! ### Packets and their owners -/

/-- The packets of `left` are those whose fate is open: every other packet that was ever made has
one event, and only one. -/
def Owned (s : Run) (left : List ℕ) : Prop :=
  (s.trace.map Event.id ++ left).Perm (List.range s.next)

theorem Owned.perm {s : Run} {left left' : List ℕ} (h : Owned s left) (hp : left.Perm left') :
    Owned s left' :=
  (hp.symm.append_left _).trans h

theorem Owned.emit {s : Run} {left : List ℕ} {e : Event} (h : Owned s (e.id :: left)) :
    Owned (s.emit e) left := by
  unfold Owned Run.emit at *
  simpa using h

/-- The copies that were handed out, in order. -/
def Event.sent : Event → Option (Member × Copy)
  | output _ m c => some (m, c)
  | _ => none

def Run.sent (s : Run) : List (Member × Copy) := s.trace.filterMap Event.sent

theorem Run.emit_sent (s : Run) (e : Event) : (s.emit e).sent = s.sent ++ e.sent.toList := by
  unfold Run.sent Run.emit
  rw [List.filterMap_append]
  cases h : e.sent <;> simp [h]

/-- Nothing fails. -/
def NoFail (env : Env) : Prop := ∀ n op, env.fails n op = false

variable {n : ℕ} {op : Op}

theorem not_noFail {env : Env} (h : env.fails n op = true) : ¬ NoFail env :=
  fun hall => by simp [hall n op] at h

/-! ### Pieces of code -/

variable (env : Env) (good : Member → Copy → Prop)

/-- Between `s` and `s'` the packets of `a` were used up and those of `b` are left; of the members
of `want` some have got a copy in that order, all of them if nothing fails, and every copy is
`good`. -/
structure Did (want : List Member) (a b : List ℕ) (s s' : Run) : Prop where
  owned : ∀ left, Owned s (a ++ left) → Owned s' (b ++ left)
  sent : ∃ outs, s'.sent = s.sent ++ outs ∧ List.Sublist (outs.map Prod.fst) want ∧
    (NoFail env → outs.map Prod.fst = want) ∧ ∀ x ∈ outs, good x.1 x.2

variable {env good} {want want' : List Member} {a b c : List ℕ} {s s' s'' : Run}
  {pkt : Packet} {m : Member}

namespace Did

theorem quiet (ht : s'.trace = s.trace) (hn : s'.next = s.next) :
    Did env good [] a a s s' where
  owned left h := by
    unfold Owned at *
    rwa [ht, hn]
  sent := ⟨[], by simp [Run.sent, ht], by simp⟩

theorem trans (h : Did env good want a b s s') (h' : Did env good want' b c s' s'') :
    Did env good (want ++ want') a c s s'' where
  owned left hs := h'.owned left (h.owned left hs)
  sent := by
    obtain ⟨outs, hsent, hsub, hall, hgood⟩ := h.sent
    obtain ⟨outs', hsent', hsub', hall', hgood'⟩ := h'.sent
    refine ⟨outs ++ outs', by rw [hsent', hsent, List.append_assoc], ?_, fun hno => ?_, ?_⟩
    · rw [List.map_append]
      exact hsub.append hsub'
    · rw [List.map_append, hall hno, hall' hno]
    · intro x hx
      exact (List.mem_append.mp hx).elim (hgood x) (hgood' x)

theorem frame (h : Did env good want a b s s') (x : List ℕ) :
    Did env good want (a ++ x) (b ++ x) s s' where
  owned left hs := by
    rw [List.append_assoc] at *
    exact h.owned _ hs
  sent := h.sent

theorem perm (h : Did env good want a b s s') (hp : b.Perm c) : Did env good want a c s s' where
  owned left hs := (h.owned left hs).perm (hp.append_right left)
  sent := h.sent

theorem mono {good' : Member → Copy → Prop} (h : Did env good want a b s s')
    (hmono : ∀ m ∈ want, ∀ c, good m c → good' m c) : Did env good' want a b s s' where
  owned := h.owned
  sent := by
    obtain ⟨outs, hsent, hsub, hall, hgood⟩ := h.sent
    exact ⟨outs, hsent, hsub, hall, fun x hx =>
      hmono _ (hsub.subset (List.mem_map_of_mem hx)) _ (hgood x hx)⟩

theorem failed (h : Did env good [] a b s s') (hf : env.fails n op = true) :
    Did env good want a b s s' where
  owned := h.owned
  sent := by
    obtain ⟨outs, hsent, hsub, -, hgood⟩ := h.sent
    exact ⟨outs, hsent, hsub.trans (List.nil_sublist _), fun hno => absurd hno (not_noFail hf),
      hgood⟩

theorem emit {e : Event} (he : e.sent = none) : Did env good [] [e.id] [] s (s.emit e) where
  owned left hs := Owned.emit hs
  sent := ⟨[], by simp [Run.emit_sent, he], by simp⟩

theorem free : Did env good [] [pkt.id] [] s (s.free pkt) := emit (e := .freed pkt.id) rfl

theorem output {vxlan : Option ℤ} (hgood : good m ⟨s.fmd.fmdLabel, s.fmd.fmdDvrf, vxlan⟩) :
    Did env good [m] [pkt.id] [] s (nhOutput env pkt m vxlan s) where
  owned left hs :=
    Owned.emit (e := .output pkt.id m ⟨s.fmd.fmdLabel, s.fmd.fmdDvrf, vxlan⟩) hs
  sent := ⟨[(m, ⟨s.fmd.fmdLabel, s.fmd.fmdDvrf, vxlan⟩)],
    Run.emit_sent s (.output pkt.id m ⟨s.fmd.fmdLabel, s.fmd.fmdDvrf, vxlan⟩), by simpa using hgood⟩

end Did

variable (env good) in
/-- The packets of `a` are used up, but the track of some may be lost if it is not `safe`. -/
def Uses (safe : Prop) (want : List Member) (a : List ℕ) (s s' : Run) : Prop :=
  ∃ lost, Did env good want a lost s s' ∧ (safe → lost = [])

variable {safe : Prop}

theorem Did.uses (h : Did env good want a [] s s') : Uses env good safe want a s s' :=
  ⟨[], h, fun _ => rfl⟩

namespace Uses

theorem after (h : Uses env good safe want b s' s'') (hd : Did env good [] a b s s') :
    Uses env good safe want a s s'' := by
  obtain ⟨lost, hdid, hsafe⟩ := h
  exact ⟨lost, by simpa using hd.trans hdid, hsafe⟩

theorem trans (h : Uses env good safe want a s s') (h' : Uses env good safe want' [] s' s'') :
    Uses env good safe (want ++ want') a s s'' := by
  obtain ⟨lost, hdid, hsafe⟩ := h
  obtain ⟨lost', hdid', hsafe'⟩ := h'
  exact ⟨lost' ++ lost, hdid.trans (hdid'.frame lost), fun hs => by simp [hsafe hs, hsafe' hs]⟩

theorem mono {good' : Member → Copy → Prop} (h : Uses env good safe want a s s')
    (hmono : ∀ m ∈ want, ∀ c, good m c → good' m c) : Uses env good' safe want a s s' := by
  obtain ⟨lost, hdid, hsafe⟩ := h
  exact ⟨lost, hdid.mono hmono, hsafe⟩

/-- The packet that was copied is freed at the end. -/
theorem free (h : Uses env good safe want [] s s') :
    Uses env good safe want [pkt.id] s (s'.free pkt) := by
  obtain ⟨lost, hdid, hsafe⟩ := h
  have hfree := (hdid.frame [pkt.id]).perm List.perm_append_comm
  exact ⟨lost, by simpa using hfree.trans (Did.free.frame lost), hsafe⟩

end Uses

/-! ### Rounds of a loop -/

variable (env good safe) in
/-- One round.  The loop goes on if nothing fails, and then `I` holds. -/
structure Round (want : List Member) (a : List ℕ) (I : Run → Prop) (s : Run) (r : Bool × Run) :
    Prop where
  uses : Uses env good safe want a s r.2
  goes : NoFail env → r.1 = true
  keeps : r.1 = true → I r.2

namespace Round

variable {I : Run → Prop} {r : Bool × Run}

theorem go (h : Did env good want a [] s s') (hI : I s') :
    Round env good safe want a I s (true, s') :=
  ⟨h.uses, fun _ => rfl, fun _ => hI⟩

theorem stop (h : Did env good [] a [] s s') (hf : env.fails n op = true) :
    Round env good safe want a I s (false, s') :=
  ⟨(h.failed hf).uses, fun hno => absurd hno (not_noFail hf), by simp⟩

theorem after (h : Round env good safe want b I s' r) (hd : Did env good [] a b s s') :
    Round env good safe want a I s r :=
  ⟨h.uses.after hd, h.goes, h.keeps⟩

theorem mono {good' : Member → Copy → Prop} (h : Round env good safe want a I s r)
    (hmono : ∀ m ∈ want, ∀ c, good m c → good' m c) : Round env good' safe want a I s r :=
  ⟨h.uses.mono hmono, h.goes, h.keeps⟩

/-- **A loop.**  Elements of `stops` end it.  The invariant speaks of what the loop has still to go
through. -/
theorem loop {α : Type*} {body : α → Run → Bool × Run} {want : α → List Member} {stops : α → Bool}
    {I : List α → Run → Prop} :
    ∀ (l : List α) {s : Run}, I l s →
      (∀ x ∈ l, ∀ rest s, I (x :: rest) s →
        if stops x then (body x s).1 = false ∧ Did env good [] [] [] s (body x s).2
        else Round env good safe (want x) [] (I rest) s (body x s)) →
      Uses env good safe ((l.takeWhile (!stops ·)).flatMap want) [] s (forBreak body l s)
  | [], _, _, _ => (Did.quiet rfl rfl).uses
  | x :: l, s, hI, h => by
    have hx := h x List.mem_cons_self l s hI
    unfold forBreak
    by_cases hstop : stops x = true
    · rw [if_pos hstop] at hx
      rw [hx.1, if_neg (by simp)]
      exact Did.uses (by simpa [hstop] using hx.2)
    · rw [if_neg hstop] at hx
      simp only [List.takeWhile_cons, Bool.not_eq_true _ ▸ hstop, Bool.not_false, if_true,
        List.flatMap_cons]
      split_ifs with hgo
      · exact hx.uses.trans (loop l (hx.keeps hgo) fun y hy => h y (List.mem_cons_of_mem _ hy))
      · obtain ⟨lost, hdid, hsafe⟩ := hx.uses
        obtain ⟨outs, hsent, hsub, -, hgood⟩ := hdid.sent
        refine ⟨lost, ⟨hdid.owned, ?_⟩, hsafe⟩
        exact ⟨outs, hsent, hsub.trans (List.sublist_append_left _ _),
          fun hno => absurd (hx.goes hno) hgo, hgood⟩

theorem loop_all {α : Type*} {body : α → Run → Bool × Run} {want : α → List Member}
    (l : List α) {s : Run}
    (h : ∀ x ∈ l, ∀ s, Round env good safe (want x) [] (fun _ => True) s (body x s)) :
    Uses env good safe (l.flatMap want) [] s (forBreak body l s) := by
  have hstops : ∀ x ∈ l, ∀ (rest : List α) s, True →
      if (fun _ => false) x = true then (body x s).1 = false ∧ Did env good [] [] [] s (body x s).2
      else Round env good safe (want x) [] (fun _ => True) s (body x s) := by
    intro x hx _ s _
    simpa using h x hx s
  have hall : l.takeWhile (fun _ => true) = l := List.takeWhile_eq_self_iff.mpr (by simp)
  simpa [hall] using loop (I := fun _ _ => True) l trivial hstops

end Round

end Vrouter.Mcast
