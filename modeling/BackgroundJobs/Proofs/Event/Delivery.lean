import BackgroundJobs.Event.Bus
import Mathlib.Data.List.Induction
import Mathlib.Data.List.Nodup

/-!
# Proofs — delivery by a bus

A history tells what was done with a bus and its subscriptions, one operation
after the other, and what came of each. From the history alone it can be told
what every subscription is owed: the messages published since it was made, less
those that it has returned. That is what it still holds, whoever else came,
went, received or was struck off meanwhile.

Main results:

* `fanOut_senders`, `fanOut_subscriptions` — what one round of sending does.
* `owed_step`       — what an operation does to one subscription.
* `kept_of_run`     — the sending ends that a bus holds, and what it has delivered.
* `faithful_of_run` — a bus delivers everything, once and in order.
-/

namespace BackgroundJobs

variable {μ : Type}

-- ---------------------------------------------------------------------------
-- Histories
-- ---------------------------------------------------------------------------

/-- What can be done with a bus and with its subscriptions. -/
inductive BusOp (μ : Type) where
  | subscribe
  | publish (message : μ)
  /-- Receives one message. If there is none, a patient receiver waits for a while. -/
  | receive (i : Nat) (patient : Bool)
  | drain (i : Nat)
  | drop (i : Nat)
  | close
  deriving DecidableEq

/-- What comes of an operation. -/
inductive BusReply (μ : Type) where
  | done
  | subscription (i : Nat)
  | received (result : Except ReceiveError μ)
  | drained (messages : List μ)
  /-- The bus or the subscription is gone, so that nobody can do such a thing with it. -/
  | refused
  deriving DecidableEq

/-- The subscription that an operation is about. -/
def BusOp.subject? : BusOp μ → Option Nat
  | .receive i _ | .drain i | .drop i => some i
  | .subscribe | .publish _ | .close => none

/-- An operation and what came of it. -/
abbrev BusDeed (μ : Type) := BusOp μ × BusReply μ

namespace BusDeed

/-- The message that was published. -/
def published : BusDeed μ → List μ
  | (.publish message, .done) => [message]
  | _ => []

/-- The messages that were returned to the owner of a subscription. -/
def returned (i : Nat) : BusDeed μ → List μ
  | (.receive j _, .received (.ok message)) => if j = i then [message] else []
  | (.drain j, .drained messages) => if j = i then messages else []
  | _ => []

/-- The subscription that was made. -/
def made : BusDeed μ → List Nat
  | (.subscribe, .subscription i) => [i]
  | _ => []

/-- The subscription that was dropped. -/
def dropped : BusDeed μ → List Nat
  | (.drop i, .done) => [i]
  | _ => []

/-- An operation that is not about a subscription neither returns its messages nor drops it. -/
theorem apart_of_subject {op : BusOp μ} {i : Nat} (h : op.subject? ≠ some i) (reply : BusReply μ) :
    i ∉ dropped (op, reply) ∧ returned i (op, reply) = [] := by
  cases op with
  | subscribe | publish | close => exact ⟨List.not_mem_nil, rfl⟩
  | receive j patient =>
    have hji : j ≠ i := fun hEq => h (by rw [hEq, BusOp.subject?])
    refine ⟨List.not_mem_nil, ?_⟩
    unfold returned
    split <;> simp_all
  | drain j =>
    have hji : j ≠ i := fun hEq => h (by rw [hEq, BusOp.subject?])
    refine ⟨List.not_mem_nil, ?_⟩
    unfold returned
    split <;> simp_all
  | drop j =>
    have hji : j ≠ i := fun hEq => h (by rw [hEq, BusOp.subject?])
    refine ⟨?_, rfl⟩
    unfold dropped
    split <;> simp_all [Ne.symm]

end BusDeed

/-- What was done with a bus and its subscriptions, in order. -/
abbrev BusHistory (μ : Type) := List (BusDeed μ)

namespace BusHistory

def published (h : BusHistory μ) : List μ :=
  h.flatMap BusDeed.published

def returned (i : Nat) (h : BusHistory μ) : List μ :=
  h.flatMap (BusDeed.returned i)

def made (h : BusHistory μ) : List Nat :=
  h.flatMap BusDeed.made

def dropped (h : BusHistory μ) : List Nat :=
  h.flatMap BusDeed.dropped

/-- What the owner of a subscription is owed, by what was done since it was made. -/
def owed (i : Nat) (since : BusHistory μ) : List μ :=
  (published since).drop (returned i since).length

variable (h : BusHistory μ) (d : BusDeed μ) (i : Nat)

@[simp] theorem published_concat : published (h ++ [d]) = published h ++ d.published := by
  simp [published]

@[simp] theorem returned_concat : returned i (h ++ [d]) = returned i h ++ d.returned i := by
  simp [returned]

@[simp] theorem made_concat : made (h ++ [d]) = made h ++ d.made := by
  simp [made]

@[simp] theorem dropped_concat : dropped (h ++ [d]) = dropped h ++ d.dropped := by
  simp [dropped]

/-- Where a history that was continued comes to a certain deed: that is the last one, or it was
there before. -/
theorem split_concat {h earlier later : BusHistory μ} {d e : BusDeed μ}
    (hSplit : h ++ [d] = earlier ++ e :: later) :
    (later = [] ∧ e = d ∧ earlier = h) ∨
      ∃ rest, later = rest ++ [d] ∧ h = earlier ++ e :: rest := by
  rcases List.eq_nil_or_concat' later with rfl | ⟨rest, last, rfl⟩
  · obtain ⟨hEarlier, hLast⟩ := List.append_inj' hSplit rfl
    exact .inl ⟨rfl, (List.singleton_inj.mp hLast).symm, hEarlier.symm⟩
  · rw [← List.cons_append, ← List.append_assoc] at hSplit
    obtain ⟨hEarlier, hLast⟩ := List.append_inj' hSplit rfl
    exact .inr ⟨rest, by rw [List.singleton_inj.mp hLast], hEarlier⟩

end BusHistory

-- ---------------------------------------------------------------------------
-- Operations
-- ---------------------------------------------------------------------------

/-- Is the subscription of that name there, and not dropped? -/
def Subscription.isLiveIn (subscriptions : List (Subscription μ)) (i : Nat) : Bool :=
  subscriptions[i]?.any fun s => !s.dropped

namespace Bus

/-- Does something with a bus or a subscription, if it is still there. -/
def perform (b : Bus μ) : BusOp μ → BusReply μ × Bus μ
  | .subscribe =>
    if b.closed then (.refused, b) else (.subscription b.subscribe.1, b.subscribe.2)
  | .publish message => if b.closed then (.refused, b) else (.done, b.publish message)
  | .receive i patient =>
    if Subscription.isLiveIn b.subscriptions i then
      let (result, b) := b.receive i (if patient then .timeout else .empty)
      (.received result, b)
    else (.refused, b)
  | .drain i =>
    if Subscription.isLiveIn b.subscriptions i then (.drained (b.drain i).1, (b.drain i).2)
    else (.refused, b)
  | .drop i =>
    if Subscription.isLiveIn b.subscriptions i then (.done, b.drop i) else (.refused, b)
  | .close => if b.closed then (.refused, b) else (.done, b.close)

/-- Does one thing after the other, and keeps the history of it. -/
def run (b : Bus μ) : List (BusOp μ) → BusHistory μ × Bus μ
  | [] => ([], b)
  | op :: rest =>
    let (reply, b) := b.perform op
    let (history, b) := b.run rest
    ((op, reply) :: history, b)

theorem run_concat (b : Bus μ) (ops : List (BusOp μ)) (op : BusOp μ) :
    b.run (ops ++ [op]) =
      ((b.run ops).1 ++ [(op, ((b.run ops).2.perform op).1)], ((b.run ops).2.perform op).2) := by
  induction ops generalizing b with
  | nil => rfl
  | cons first rest ih => simp [run, ih]

end Bus

-- ---------------------------------------------------------------------------
-- One round of sending
-- ---------------------------------------------------------------------------

namespace Subscription

variable {subscriptions : List (Subscription μ)} {i j : Nat}

theorem isLiveIn_iff :
    isLiveIn subscriptions i = true ↔ ∃ s, subscriptions[i]? = some s ∧ s.dropped = false := by
  unfold isLiveIn
  cases subscriptions[i]? with
  | none => simp
  | some s => simp

theorem lt_of_isLiveIn (h : isLiveIn subscriptions i = true) : i < subscriptions.length := by
  obtain ⟨s, hAt, -⟩ := isLiveIn_iff.mp h
  exact (List.getElem?_eq_some_iff.mp hAt).1

/-- A message gets through to a subscription exactly if it was not dropped. -/
theorem send?_bind (message : μ) :
    subscriptions[i]?.bind (·.send? message) =
      if isLiveIn subscriptions i then
        subscriptions[i]?.map fun s => { s with pending := s.pending ++ [message] }
      else none := by
  unfold isLiveIn
  cases subscriptions[i]? with
  | none => simp
  | some s => cases hDropped : s.dropped <;> simp [send?, hDropped]

theorem isLiveIn_set_of_eq {s t : Subscription μ} (hAt : subscriptions[i]? = some s)
    (hDropped : t.dropped = s.dropped) :
    isLiveIn (subscriptions.set i t) j = isLiveIn subscriptions j := by
  unfold isLiveIn
  by_cases hij : i = j
  · subst hij
    have hi : i < subscriptions.length := (List.getElem?_eq_some_iff.mp hAt).1
    rw [List.getElem?_set_self hi, hAt]
    simp [hDropped]
  · rw [List.getElem?_set_ne hij]

end Subscription

namespace Bus

open Subscription (isLiveIn isLiveIn_iff lt_of_isLiveIn isLiveIn_set_of_eq send?_bind)

variable {senders : List Nat} {subscriptions : List (Subscription μ)} {message : μ}

@[simp] theorem length_fanOut :
    (fanOut message senders subscriptions).2.length = subscriptions.length := by
  induction senders generalizing subscriptions with
  | nil => rfl
  | cons i rest ih =>
    unfold fanOut
    split <;> simp [ih]

/-- A round of sending gives up the senders whose subscriptions were dropped, and no other. -/
theorem fanOut_senders :
    (fanOut message senders subscriptions).1 = senders.filter (isLiveIn subscriptions) := by
  induction senders generalizing subscriptions with
  | nil => rfl
  | cons i rest ih =>
    unfold fanOut
    rw [send?_bind]
    cases hLive : isLiveIn subscriptions i with
    | false => simp [hLive, ih]
    | true =>
      obtain ⟨s, hAt, -⟩ := isLiveIn_iff.mp hLive
      have hSame : isLiveIn (subscriptions.set i { s with pending := s.pending ++ [message] }) =
          isLiveIn subscriptions := funext fun j => isLiveIn_set_of_eq hAt rfl
      simp [hLive, hAt, ih, hSame]

/-- A round of sending gives a copy to every subscription that it sends to and that was not
dropped, and leaves all others alone. -/
theorem fanOut_subscriptions (hNodup : senders.Nodup) (j : Nat) :
    (fanOut message senders subscriptions).2[j]? =
      subscriptions[j]?.map fun s =>
        if j ∈ senders ∧ s.dropped = false then { s with pending := s.pending ++ [message] }
        else s := by
  induction senders generalizing subscriptions with
  | nil => simp [fanOut]
  | cons i rest ih =>
    obtain ⟨hFirst, hRest⟩ := List.nodup_cons.mp hNodup
    unfold fanOut
    rw [send?_bind]
    cases hLive : isLiveIn subscriptions i with
    | false =>
      simp only [Bool.false_eq_true, if_false, ih hRest]
      by_cases hij : j = i
      · subst hij
        cases hAt : subscriptions[j]? with
        | none => rfl
        | some s =>
          have hDropped : s.dropped = true := by simpa [isLiveIn, hAt] using hLive
          simp [hDropped]
      · simp [hij]
    | true =>
      obtain ⟨s, hAt, hDropped⟩ := isLiveIn_iff.mp hLive
      have hi : i < subscriptions.length := lt_of_isLiveIn hLive
      simp only [if_true, hAt, Option.map_some, ih hRest]
      by_cases hij : j = i
      · subst hij
        simp [List.getElem?_set_self hi, hAt, hDropped, hFirst]
      · rw [List.getElem?_set_ne (Ne.symm hij)]
        simp [hij]

end Bus

-- ---------------------------------------------------------------------------
-- One operation
-- ---------------------------------------------------------------------------

namespace Bus

open Subscription (isLiveIn isLiveIn_iff lt_of_isLiveIn)

variable {b b' : Bus μ} {op : BusOp μ} {d : BusDeed μ} {h : BusHistory μ} {i : Nat}

/-- What an operation makes of a bus, by what came of it. -/
inductive Performs (b : Bus μ) : BusDeed μ → Bus μ → Prop where
  | refuses (op : BusOp μ) : Performs b (op, .refused) b
  | subscribes (isOpen : b.closed = false) :
    Performs b (.subscribe, .subscription b.subscriptions.length) b.subscribe.2
  | publishes (isOpen : b.closed = false) (message : μ) :
    Performs b (.publish message, .done) (b.publish message)
  | returns (i : Nat) (patient : Bool) (message : μ) (rest : List μ)
    (live : isLiveIn b.subscriptions i = true) (holds : b.pending i = message :: rest) :
    Performs b (.receive i patient, .received (.ok message))
      (b.modify i fun s => { s with pending := rest })
  | lacks (i : Nat) (patient : Bool) (e : ReceiveError) :
    Performs b (.receive i patient, .received (.error e)) b
  | drains (i : Nat) (live : isLiveIn b.subscriptions i = true) :
    Performs b (.drain i, .drained (b.pending i)) (b.modify i fun s => { s with pending := [] })
  | drops (i : Nat) (live : isLiveIn b.subscriptions i = true) :
    Performs b (.drop i, .done) (b.drop i)
  | closes (isOpen : b.closed = false) : Performs b (.close, .done) b.close

theorem performs (b : Bus μ) (op : BusOp μ) :
    b.Performs (op, (b.perform op).1) (b.perform op).2 := by
  cases op with
  | subscribe =>
    simp only [perform]
    split
    · exact .refuses _
    · next hOpen => exact .subscribes (by simpa using hOpen)
  | publish message =>
    simp only [perform]
    split
    · exact .refuses _
    · next hOpen => exact .publishes (by simpa using hOpen) message
  | receive i patient =>
    simp only [perform, receive]
    split
    · next hLive =>
      split
      · next message rest hHolds => exact .returns i patient message rest hLive hHolds
      · exact .lacks i patient _
    · exact .refuses _
  | drain i =>
    simp only [perform]
    split
    · next hLive => exact .drains i hLive
    · exact .refuses _
  | drop i =>
    simp only [perform]
    split
    · next hLive => exact .drops i hLive
    · exact .refuses _
  | close =>
    simp only [perform]
    split
    · exact .refuses _
    · next hOpen => exact .closes (by simpa using hOpen)

theorem pending_of_getElem? {s : Subscription μ} (hAt : b.subscriptions[i]? = some s) :
    b.pending i = s.pending := by
  rw [pending, hAt]
  rfl

theorem pending_modify (j : Nat) (change : Subscription μ → Subscription μ) :
    (b.modify j change).pending i =
      if j = i then (b.subscriptions[i]?.map fun s => (change s).pending).getD []
      else b.pending i := by
  unfold pending modify
  rw [List.getElem?_modify]
  split <;> cases b.subscriptions[i]? <;> simp

/-- The sending ends of a bus are in order: each is held once, a bus that is open holds that of
every subscription not dropped, and a closed one holds none. -/
structure Enrolled (b : Bus μ) : Prop where
  ordered : b.senders.Sublist (List.range b.subscriptions.length)
  live : b.closed = false → ∀ i, isLiveIn b.subscriptions i = true → i ∈ b.senders
  closed : b.closed = true → b.senders = []

theorem Enrolled.nodup (hEnrolled : b.Enrolled) : b.senders.Nodup :=
  hEnrolled.ordered.nodup List.nodup_range

/-- On an open bus the senders of subscriptions not dropped are those subscriptions. -/
theorem Enrolled.filter_senders (hEnrolled : b.Enrolled) (hOpen : b.closed = false) :
    b.senders.filter (isLiveIn b.subscriptions) =
      (List.range b.subscriptions.length).filter (isLiveIn b.subscriptions) := by
  have hSublist := hEnrolled.ordered.filter (isLiveIn b.subscriptions)
  have hPerm : (b.senders.filter (isLiveIn b.subscriptions)).Perm
      ((List.range b.subscriptions.length).filter (isLiveIn b.subscriptions)) := by
    refine (List.perm_ext_iff_of_nodup (hEnrolled.nodup.filter _) (List.nodup_range.filter _)).mpr
      fun i => ?_
    simp only [List.mem_filter, List.mem_range]
    constructor
    · intro ⟨_, hLive⟩
      exact ⟨lt_of_isLiveIn hLive, hLive⟩
    · intro ⟨_, hLive⟩
      exact ⟨hEnrolled.live hOpen i hLive, hLive⟩
  exact hSublist.eq_of_length hPerm.length_eq

-- ---------------------------------------------------------------------------
-- What an operation changes
-- ---------------------------------------------------------------------------

theorem range_of_performs (hPerforms : b.Performs d b') :
    List.range b'.subscriptions.length = List.range b.subscriptions.length ++ d.made := by
  cases hPerforms with
  | refuses op => cases op <;> simp [BusDeed.made]
  | subscribes isOpen => simp [subscribe, BusDeed.made, List.range_succ]
  | publishes isOpen message => simp [publish, BusDeed.made]
  | returns | drains | drops => simp [modify, drop, BusDeed.made]
  | lacks | closes => simp [close, BusDeed.made]

theorem isLiveIn_modify {j : Nat} {change : Subscription μ → Subscription μ}
    (hSame : ∀ s, (change s).dropped = s.dropped) :
    isLiveIn (b.modify j change).subscriptions i = isLiveIn b.subscriptions i := by
  unfold isLiveIn modify
  rw [List.getElem?_modify]
  split <;> cases b.subscriptions[i]? <;> simp [hSame]

/-- A subscription is live from when it is made until it is dropped. -/
theorem isLiveIn_of_performs (hEnrolled : b.Enrolled) (hPerforms : b.Performs d b') :
    isLiveIn b'.subscriptions i = true ↔
      (isLiveIn b.subscriptions i = true ∨ i ∈ d.made) ∧ i ∉ d.dropped := by
  cases hPerforms with
  | refuses op => cases op <;> simp [BusDeed.made, BusDeed.dropped]
  | subscribes isOpen =>
    simp only [subscribe, isLiveIn, BusDeed.made, BusDeed.dropped, List.getElem?_append]
    split
    · next hi =>
      have hNe : i ≠ b.subscriptions.length := by omega
      simp [hNe]
    · next hi =>
      have hNone : b.subscriptions[i]? = none := List.getElem?_eq_none (by omega)
      by_cases hEq : i = b.subscriptions.length
      · simp [hEq]
      · have hPast : i - b.subscriptions.length ≠ 0 := by omega
        simp [hNone, hEq, hPast]
  | publishes isOpen message =>
    simp only [publish, isLiveIn, BusDeed.made, BusDeed.dropped,
      fanOut_subscriptions hEnrolled.nodup]
    cases b.subscriptions[i]? with
    | none => simp
    | some s => simp only [Option.map_some]; split <;> simp
  | returns j patient message rest | drains j =>
    rw [isLiveIn_modify]
    · simp [BusDeed.made, BusDeed.dropped]
    · exact fun _ => rfl
  | drops j live =>
    simp only [drop, modify, isLiveIn, List.getElem?_modify, BusDeed.made, BusDeed.dropped]
    by_cases hji : j = i
    · subst hji
      cases b.subscriptions[j]? <;> simp
    · simp [hji, Ne.symm hji]
  | lacks | closes => simp [close, BusDeed.made, BusDeed.dropped]

/-- An operation adds the subscription that it makes to the senders of an open bus. A publication
leaves those that are live. -/
theorem senders_of_performs (hEnrolled : b.Enrolled) (hPerforms : b.Performs d b')
    (hOpen : b'.closed = false) :
    b.closed = false ∧ (d.published = [] → b'.senders = b.senders ++ d.made) ∧
      (d.published ≠ [] → b'.senders =
        (List.range b.subscriptions.length).filter (isLiveIn b.subscriptions)) := by
  cases hPerforms with
  | refuses op => cases op <;> simp [hOpen, BusDeed.published, BusDeed.made]
  | subscribes isOpen => simp [isOpen, subscribe, BusDeed.published, BusDeed.made]
  | publishes isOpen message =>
    have hSenders := hEnrolled.filter_senders isOpen
    simp [isOpen, publish, BusDeed.published, fanOut_senders, hSenders]
  | returns | drains | drops | lacks =>
    have hSame : b.closed = false := hOpen
    simp [hSame, modify, drop, BusDeed.published, BusDeed.made]
  | closes isOpen => cases hOpen

theorem Enrolled.step (hEnrolled : b.Enrolled) (hPerforms : b.Performs d b') : b'.Enrolled := by
  have hLive := fun i => isLiveIn_of_performs (i := i) hEnrolled hPerforms
  have hSenders := senders_of_performs hEnrolled hPerforms
  have hRange := range_of_performs hPerforms
  cases hClosed : b'.closed with
  | false =>
    obtain ⟨hOpen, hOther, hPublished⟩ := hSenders hClosed
    refine ⟨?_, fun _ i hAfter => ?_, by simp [hClosed]⟩
    · rw [hRange]
      by_cases hNone : d.published = []
      · rw [hOther hNone]
        exact hEnrolled.ordered.append (List.Sublist.refl _)
      · rw [hPublished hNone]
        exact List.filter_sublist.trans (List.sublist_append_left _ _)
    · obtain ⟨hBefore, -⟩ := (hLive i).mp hAfter
      by_cases hNone : d.published = []
      · rw [hOther hNone, List.mem_append]
        exact hBefore.imp_left (hEnrolled.live hOpen i)
      · rw [hPublished hNone, List.mem_filter, List.mem_range]
        have hMade : d.made = [] := by
          cases hPerforms with
          | publishes => rfl
          | subscribes | returns | lacks | drains | drops | closes | refuses =>
            simp [BusDeed.published] at hNone
        simp only [hMade, List.not_mem_nil, or_false] at hBefore
        exact ⟨lt_of_isLiveIn hBefore, hBefore⟩
  | true =>
    have hNone : b'.senders = [] := by
      cases hPerforms with
      | subscribes isOpen | publishes isOpen => simp [subscribe, publish, isOpen] at hClosed
      | refuses | returns | drains | drops | lacks => exact hEnrolled.closed hClosed
      | closes => rfl
    exact ⟨by simp [hNone], by simp [hClosed], fun _ => hNone⟩

/-- While nobody drops a subscription, an operation returns what it holds or adds what is
published. -/
theorem owed_step (hEnrolled : b.Enrolled) (hPerforms : b.Performs d b')
    (hLive : isLiveIn b.subscriptions i = true) (hKept : i ∉ d.dropped) :
    d.returned i ++ b'.pending i = b.pending i ++ d.published := by
  obtain ⟨s, hAt, hDropped⟩ := isLiveIn_iff.mp hLive
  cases hPerforms with
  | refuses op => cases op <;> simp [BusDeed.returned, BusDeed.published]
  | subscribes isOpen =>
    have hi := lt_of_isLiveIn hLive
    simp [BusDeed.returned, BusDeed.published, subscribe, pending, List.getElem?_append_left hi]
  | publishes isOpen message =>
    have hSender : i ∈ b.senders := hEnrolled.live isOpen i hLive
    have hAfter : (b.publish message).subscriptions[i]? =
        some { s with pending := s.pending ++ [message] } := by
      rw [publish, fanOut_subscriptions hEnrolled.nodup, hAt]
      simp [hSender, hDropped]
    simp [BusDeed.returned, BusDeed.published, pending_of_getElem? hAfter, pending_of_getElem? hAt]
  | returns j patient message rest live holds =>
    rw [pending_modify, hAt]
    by_cases hji : j = i
    · subst hji
      simp [BusDeed.returned, BusDeed.published, holds]
    · simp [BusDeed.returned, BusDeed.published, hji]
  | drains j =>
    rw [pending_modify, hAt]
    by_cases hji : j = i
    · subst hji
      simp [BusDeed.returned, BusDeed.published]
    · simp [BusDeed.returned, BusDeed.published, hji]
  | drops j =>
    have hji : j ≠ i := by
      rintro rfl
      exact hKept List.mem_cons_self
    simp [BusDeed.returned, BusDeed.published, drop, pending_modify, hji]
  | lacks | closes => simp [BusDeed.returned, BusDeed.published, close, pending]

/-- Nothing is returned to the owner of a subscription that is not live. -/
theorem returned_of_performs (hPerforms : b.Performs d b')
    (hGone : isLiveIn b.subscriptions i ≠ true) : d.returned i = [] := by
  cases hPerforms with
  | refuses op => cases op <;> rfl
  | returns j patient message rest live | drains j live =>
    have hji : j ≠ i := by
      rintro rfl
      exact hGone live
    simp [BusDeed.returned, hji]
  | subscribes | publishes | lacks | drops | closes => rfl

theorem closed_of_performs (hPerforms : b.Performs d b') :
    b'.closed = true ↔ b.closed = true ∨ d = (.close, .done) := by
  cases hPerforms with
  | subscribes | publishes | returns | drains | drops => simp [subscribe, publish, modify, drop]
  | refuses | lacks | closes => simp [close]

-- ---------------------------------------------------------------------------
-- Runs
-- ---------------------------------------------------------------------------

open BusHistory (split_concat published returned made dropped owed published_concat returned_concat
  made_concat dropped_concat)

/-- What a bus and its history agree on. -/
structure Kept (b : Bus μ) (h : BusHistory μ) : Prop where
  enrolled : b.Enrolled
  shut : b.closed = true ↔ (.close, .done) ∈ h
  named : made h = List.range b.subscriptions.length
  live : ∀ i, isLiveIn b.subscriptions i = true ↔ i ∈ made h ∧ i ∉ dropped h
  known : ∀ i ∈ dropped h, i ∈ made h
  delivered : ∀ i earlier later, h = earlier ++ (.subscribe, .subscription i) :: later →
    i ∉ dropped earlier ∧ returned i later <+: published later ∧
      (i ∉ dropped later → returned i later ++ b.pending i = published later)
  /-- The senders that the last publication left, and those that came since. -/
  counted : b.closed = false →
    (∀ earlier message later, h = earlier ++ (.publish message, .done) :: later →
      published later = [] →
        b.senders = (made earlier).filter (fun i => i ∉ dropped earlier) ++ made later) ∧
    (published h = [] → b.senders = made h)

theorem kept_empty : (empty : Bus μ).Kept [] where
  enrolled := ⟨List.Sublist.refl _, nofun, nofun⟩
  shut := by simp [empty]
  named := rfl
  live i := by simp [isLiveIn, empty, made]
  known i hDropped := (List.not_mem_nil hDropped).elim
  delivered i earlier later hSplit := by simp at hSplit
  counted _ := ⟨fun earlier message later hSplit => by simp at hSplit, fun _ => rfl⟩

theorem Kept.live_of_split {earlier later : BusHistory μ}
    (hKept : b.Kept h) (hSplit : h = earlier ++ (.subscribe, .subscription i) :: later)
    (hHeld : i ∉ dropped later) : isLiveIn b.subscriptions i = true := by
  obtain ⟨hEarlier, -⟩ := hKept.delivered i earlier later hSplit
  refine (hKept.live i).mpr ⟨?_, ?_⟩
  · simp [hSplit, made, BusDeed.made]
  · rw [hSplit, dropped, List.flatMap_append, List.flatMap_cons, List.mem_append, List.mem_append]
    rintro (hOld | hNone | hNew)
    · exact hEarlier hOld
    · cases hNone
    · exact hHeld hNew

theorem Kept.delivered_step (hKept : b.Kept h) (hPerforms : b.Performs d b')
    {earlier later : BusHistory μ}
    (hSplit : h ++ [d] = earlier ++ (.subscribe, .subscription i) :: later) :
    i ∉ dropped earlier ∧ returned i later <+: published later ∧
      (i ∉ dropped later → returned i later ++ b'.pending i = published later) := by
  rcases split_concat hSplit with ⟨rfl, rfl, rfl⟩ | ⟨rest, rfl, hOld⟩
  · cases hPerforms with
    | subscribes isOpen =>
      refine ⟨fun hDropped => ?_, List.prefix_refl _, fun _ => ?_⟩
      · have hMade := hKept.known _ hDropped
        rw [hKept.named] at hMade
        exact absurd (List.mem_range.mp hMade) (Nat.lt_irrefl _)
      · simp [returned, published, subscribe, pending]
  · obtain ⟨hEarlier, hPrefix, hExact⟩ := hKept.delivered i earlier rest hOld
    have hStep : i ∉ dropped (rest ++ [d]) →
        returned i (rest ++ [d]) ++ b'.pending i = published (rest ++ [d]) := by
      intro hHeld
      rw [dropped_concat, List.mem_append, not_or] at hHeld
      have hLive := hKept.live_of_split hOld hHeld.1
      calc returned i (rest ++ [d]) ++ b'.pending i
          = returned i rest ++ (d.returned i ++ b'.pending i) := by simp
        _ = returned i rest ++ (b.pending i ++ d.published) := by
            rw [owed_step hKept.enrolled hPerforms hLive hHeld.2]
        _ = published (rest ++ [d]) := by
            rw [← List.append_assoc, hExact hHeld.1, published_concat]
    refine ⟨hEarlier, ?_, hStep⟩
    by_cases hHeld : i ∈ dropped (rest ++ [d])
    · -- whoever drops a subscription, or has dropped it, gets nothing more of it
      have hNone : d.returned i = [] := by
        by_cases hNow : i ∈ d.dropped
        · cases hPerforms with
          | drops => rfl
          | refuses op => cases op <;> rfl
          | subscribes | publishes | returns | lacks | drains | closes => cases hNow
        · refine returned_of_performs hPerforms fun hLive => ?_
          rw [dropped_concat, List.mem_append] at hHeld
          refine ((hKept.live i).mp hLive).2 ?_
          rw [hOld, dropped, List.flatMap_append, List.flatMap_cons]
          exact List.mem_append_right _ (List.mem_append_right _ (hHeld.resolve_right hNow))
      rw [returned_concat, published_concat, hNone, List.append_nil]
      exact hPrefix.trans (List.prefix_append _ _)
    · exact ⟨b'.pending i, hStep hHeld⟩

theorem Kept.counted_step (hKept : b.Kept h) (hPerforms : b.Performs d b')
    (hOpen : b'.closed = false) :
    (∀ earlier message later, h ++ [d] = earlier ++ (.publish message, .done) :: later →
      published later = [] →
        b'.senders = (made earlier).filter (fun i => i ∉ dropped earlier) ++ made later) ∧
    (published (h ++ [d]) = [] → b'.senders = made (h ++ [d])) := by
  obtain ⟨hOpenBefore, hOther, hPublished⟩ := senders_of_performs hKept.enrolled hPerforms hOpen
  obtain ⟨hSince, hAll⟩ := hKept.counted hOpenBefore
  refine ⟨fun earlier message later hSplit hLast => ?_, fun hNone => ?_⟩
  · rcases split_concat hSplit with ⟨rfl, rfl, rfl⟩ | ⟨rest, rfl, hOld⟩
    · rw [hPublished (by simp [BusDeed.published]), ← hKept.named]
      simp only [made, List.flatMap_nil, List.append_nil]
      refine List.filter_congr fun i hi => Bool.eq_iff_iff.mpr ?_
      rw [hKept.live i, decide_eq_true_iff]
      exact ⟨fun hLive => hLive.2, fun hHeld => ⟨hi, hHeld⟩⟩
    · rw [published_concat, List.append_eq_nil_iff] at hLast
      rw [hOther hLast.2, hSince earlier message rest hOld hLast.1, made_concat, List.append_assoc]
  · rw [published_concat, List.append_eq_nil_iff] at hNone
    rw [hOther hNone.2, hAll hNone.1, made_concat]

theorem Kept.step (hKept : b.Kept h) (hPerforms : b.Performs d b') : b'.Kept (h ++ [d]) where
  enrolled := hKept.enrolled.step hPerforms
  shut := by
    rw [closed_of_performs hPerforms, hKept.shut, List.mem_append, List.mem_singleton]
    exact or_congr_right eq_comm
  named := by rw [made_concat, hKept.named, range_of_performs hPerforms]
  live i := by
    rw [isLiveIn_of_performs hKept.enrolled hPerforms, hKept.live i, made_concat, dropped_concat,
      List.mem_append, List.mem_append]
    have hNew : i ∈ d.made → i ∉ dropped h := by
      intro hMade hDropped
      have hKnown := hKept.known i hDropped
      rw [hKept.named, List.mem_range] at hKnown
      cases hPerforms with
      | subscribes => exact absurd (List.mem_singleton.mp hMade) (Nat.ne_of_lt hKnown)
      | refuses op => cases op <;> cases hMade
      | publishes | returns | lacks | drains | drops | closes => cases hMade
    tauto
  known i hDropped := by
    rw [dropped_concat, List.mem_append] at hDropped
    rw [made_concat, List.mem_append]
    refine .inl (hDropped.elim (hKept.known i) fun hNow => ?_)
    cases hPerforms with
    | drops j live =>
      rw [List.mem_singleton.mp hNow]
      exact ((hKept.live j).mp live).1
    | refuses op => cases op <;> cases hNow
    | subscribes | publishes | returns | lacks | drains | closes => cases hNow
  delivered i earlier later hSplit := hKept.delivered_step hPerforms hSplit
  counted hOpen := hKept.counted_step hPerforms hOpen

/-- A bus keeps to its history, whatever is done with it. -/
theorem kept_of_run (ops : List (BusOp μ)) :
    ((empty : Bus μ).run ops).2.Kept (empty.run ops).1 := by
  induction ops using List.reverseRecOn with
  | nil => exact kept_empty
  | append_singleton before op ih =>
    rw [run_concat]
    exact ih.step (performs _ op)

-- ---------------------------------------------------------------------------
-- Delivery
-- ---------------------------------------------------------------------------

/-- How a bus serves a live subscription, by what was done since it was made. -/
structure Serves (b : Bus μ) (i : Nat) (since : BusHistory μ) : Prop where
  /-- What was returned and what is still held is what was published, in that order. -/
  exact : returned i since ++ b.pending i = published since
  /-- Whatever is done without the subscription, it only gains what is published. -/
  spared : ∀ op : BusOp μ, op.subject? ≠ some i →
    (b.perform op).2.pending i = b.pending i ++ BusDeed.published (op, (b.perform op).1)
  /-- The next message that is owed is received, and nothing is missing as long as there is one. -/
  receives : ∀ patient, (b.perform (.receive i patient)).1 = .received (
    match owed i since with
    | message :: _ => .ok message
    | [] => .error (
      if b.closed then .disconnected else if patient then .timeout else .empty))
  drains : (b.perform (.drain i)).1 = .drained (owed i since)
  /-- When the bus is closed, all that is owed can still be received, and then no more comes. -/
  outlasts : b.closed = true → ∀ patient,
    ((b.run (List.replicate ((owed i since).length + 1) (.receive i patient))).1.map (·.2)) =
      (owed i since).map (fun message => .received (.ok message)) ++
        [.received (.error .disconnected)]

/-- How a bus goes by its history. -/
structure Faithful (b : Bus μ) (h : BusHistory μ) : Prop where
  /-- Only what is gone is refused. -/
  refuses : ∀ op : BusOp μ, (b.perform op).1 = .refused ↔
    match op.subject? with
    | some i => i ∉ made h ∨ i ∈ dropped h
    | none => (.close, .done) ∈ h
  serves : ∀ i earlier later, h = earlier ++ (.subscribe, .subscription i) :: later →
    i ∉ dropped later → b.Serves i later
  /-- Also a subscription that was dropped returned only what was published, in that order. -/
  served : ∀ i earlier later, h = earlier ++ (.subscribe, .subscription i) :: later →
    returned i later <+: published later
  /-- The subscriptions that were made and not dropped before the last publication are counted,
  together with those that were made since. -/
  counts : b.closed = false → ∀ earlier message later,
    h = earlier ++ (.publish message, .done) :: later → published later = [] →
      b.subscriberCount =
        ((made earlier).filter fun i => i ∉ dropped earlier).length + (made later).length
  countsAll : b.closed = false → published h = [] → b.subscriberCount = (made h).length

theorem Kept.refused_iff (hKept : b.Kept h) (op : BusOp μ) : (b.perform op).1 = .refused ↔
    match op.subject? with
    | some i => i ∉ made h ∨ i ∈ dropped h
    | none => (.close, .done) ∈ h := by
  have hGone : ∀ i, (i ∉ made h ∨ i ∈ dropped h) ↔ ¬isLiveIn b.subscriptions i = true := by
    intro i
    rw [hKept.live i]
    tauto
  cases op with
  | subscribe | publish | close =>
    simp only [perform, BusOp.subject?, ← hKept.shut]
    split <;> simp_all
  | receive i | drain i | drop i =>
    simp only [perform, BusOp.subject?, hGone]
    split <;> simp_all

theorem receive_of_live (hEnrolled : b.Enrolled) (hLive : isLiveIn b.subscriptions i = true)
    (patient : Bool) : (b.perform (.receive i patient)).1 = .received (
      match b.pending i with
      | message :: _ => .ok message
      | [] => .error (
        if b.closed then .disconnected else if patient then .timeout else .empty)) := by
  have hHeld : i ∈ b.senders ↔ b.closed = false := by
    cases hClosed : b.closed with
    | true => simp [hEnrolled.closed hClosed]
    | false => simp [hEnrolled.live hClosed i hLive]
  cases hHolds : b.pending i with
  | nil => cases hClosed : b.closed <;> simp [perform, hLive, receive, hHolds, hHeld, hClosed]
  | cons message rest => simp [perform, hLive, receive, hHolds]

/-- What a closed bus has left for a subscription is received message by message. -/
theorem run_receive_of_closed (hEnrolled : b.Enrolled) (hClosed : b.closed = true)
    (hLive : isLiveIn b.subscriptions i = true) (patient : Bool) :
    ((b.run (List.replicate ((b.pending i).length + 1) (.receive i patient))).1.map (·.2)) =
      (b.pending i).map (fun message => .received (.ok message)) ++
        [.received (.error .disconnected)] := by
  generalize hHolds : b.pending i = messages
  have hReply := receive_of_live hEnrolled hLive patient
  induction messages generalizing b with
  | nil =>
    rw [hHolds, hClosed] at hReply
    simp [run, hReply]
  | cons message rest ih =>
    rw [hHolds] at hReply
    have hPerforms := performs b (.receive i patient)
    generalize hNext : (b.perform (.receive i patient)).2 = next at hPerforms
    rw [hReply] at hPerforms
    have hEnrolled' := hEnrolled.step hPerforms
    have hLive' : isLiveIn next.subscriptions i = true :=
      (isLiveIn_of_performs hEnrolled hPerforms).mpr ⟨.inl hLive, List.not_mem_nil⟩
    have hClosed' : next.closed = true := (closed_of_performs hPerforms).mpr (.inl hClosed)
    have hRest : next.pending i = rest := by
      have hOwed := owed_step hEnrolled hPerforms hLive List.not_mem_nil
      simpa [BusDeed.returned, BusDeed.published, hHolds] using hOwed
    have hLater := ih hEnrolled' hClosed' hLive' hRest (receive_of_live hEnrolled' hLive' patient)
    rw [List.length_cons, List.replicate_succ, run]
    simp only [hReply, hNext, List.map_cons, hLater, List.cons_append]

/-- A bus delivers to every subscription what was published since it was made, once and in order,
whatever is done with it and with other subscriptions. -/
theorem faithful_of_run (ops : List (BusOp μ)) :
    ((empty : Bus μ).run ops).2.Faithful (empty.run ops).1 := by
  have hKept := kept_of_run ops
  generalize (empty : Bus μ).run ops = result at hKept ⊢
  obtain ⟨h, b⟩ := result
  refine ⟨hKept.refused_iff, ?_, ?_, ?_, ?_⟩
  · intro i earlier later hSplit hHeld
    have hLive := hKept.live_of_split hSplit hHeld
    have hExact := (hKept.delivered i earlier later hSplit).2.2 hHeld
    have hOwed : owed i later = b.pending i := by
      rw [owed, ← hExact, List.drop_left]
    refine ⟨hExact, fun op hOther => ?_, fun patient => ?_, ?_, fun hClosed patient => ?_⟩
    · obtain ⟨hHeldStill, hNone⟩ := BusDeed.apart_of_subject hOther (b.perform op).1
      have hStep := owed_step hKept.enrolled (performs b op) hLive hHeldStill
      rwa [hNone, List.nil_append] at hStep
    · rw [hOwed]
      exact receive_of_live hKept.enrolled hLive patient
    · rw [hOwed, perform, if_pos hLive]
      rfl
    · rw [hOwed]
      exact run_receive_of_closed hKept.enrolled hClosed hLive patient
  · intro i earlier later hSplit
    exact (hKept.delivered i earlier later hSplit).2.1
  · intro hOpen earlier message later hSplit hLast
    rw [subscriberCount, (hKept.counted hOpen).1 earlier message later hSplit hLast,
      List.length_append]
  · intro hOpen hNone
    rw [subscriberCount, (hKept.counted hOpen).2 hNone]

/-- One subscriber goes between two publications, and the other one receives both messages. -/
example : ((empty : Bus Nat).run [.subscribe, .subscribe, .publish 1, .drop 0, .publish 2, .close,
      .drain 1, .receive 1 true]).1.map (·.2) =
    [.subscription 0, .subscription 1, .done, .done, .done, .done, .drained [1, 2],
      .received (.error .disconnected)] := by
  decide

end Bus

end BackgroundJobs
