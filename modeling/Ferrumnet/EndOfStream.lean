import Ferrumnet.Sockets

/-
  What a read that resolves to zero bytes says.

  A reader gets zero bytes at the peer's FIN, and also where the connection is closed and
  was not reset, and where there is none. A connection that closes is reaped by the next
  transmission pass, so a stream that does not read in between finds none, whatever closed
  it and whatever was left unread.

  1. `Kept` — what the history of a run keeps.
  2. `end_of_stream` — in which runs such a read comes behind the FIN and every byte
     before it.
-/

namespace Ferrumnet

namespace Sockets

variable {κ : Type} [CongestionControl κ] (s : Sockets κ)

/-- The connection, while it is in the table. -/
def conn (x : Incarnation) : Option (Tcb κ) :=
  if s.current x.remote = x then s.reactor.stack.connection x.remote else none

/-- A read with a buffer gets zero bytes only behind the peer's FIN on the connection of its
stream, and after reads on that stream have returned every byte that came before it. -/
def Honest : SocketAct → Prop
  | .operate i (.read n w) => n ≠ 0 → ∀ x, s.streams[i]? = some x → s.reactor.AtEnd x.remote n w →
      ∃ t, s.record x = some t ∧ t.peerFinSeen = true ∧ s.got i = s.taken x ++ t.rx.buf.data
  | _ => True

/-- The connection was at the peer's FIN with nothing unread when it left the table, and no
other stream has read from it. -/
def Retired (i : Nat) (x : Incarnation) : Prop :=
  ∃ t, s.record x = some t ∧ t.peerFinSeen = true ∧ t.rxAvailable = 0 ∧ s.got i = s.taken x

/-- A read does not come to a connection that a timeout has closed, nor to one whose bytes
another stream has read; and it comes after its connection has left the table only if that
was retired, or if another one under its remote keeps it from the end. -/
def Punctual : SocketAct → Prop
  | .operate i (.read n _) => n ≠ 0 → ∀ x, s.streams[i]? = some x →
      match s.conn x with
      | some t => t.rxAvailable = 0 → t.isReset = false →
          (t.state = .closed → t.peerFinSeen = true) ∧ (t.peerFinSeen = true → s.got i = s.taken x)
      | none => s.Retired i x ∨ ∃ t, s.reactor.stack.connection x.remote = some t ∧
          (0 < t.rxAvailable ∨ t.isReset = true ∨ t.peerFinSeen = false ∧ t.state ≠ .closed)
  | _ => True

/-- What the history keeps. -/
structure Kept (s : Sockets κ) : Prop where
  /-- What is in the table is on record. -/
  record : ∀ x t, s.conn x = some t → s.record x = some t
  /-- What a stream has returned of its connection was taken from it. -/
  got : ∀ i x, s.streams[i]? = some x → (s.got i).Sublist (s.taken x)
  fresh : ∀ i, s.streams.length ≤ i → s.got i = []

variable {s} {a : SocketAct} {i : Nat} {x : Incarnation} {v : Reactor.Event} {t : Tcb κ}

/-! ## One act -/

omit [CongestionControl κ] in
/-- An act is made through a stream that there is. -/
theorem handle_lt (hv : s.event a = some v) (ha : handle a = some i) : i < s.streams.length := by
  cases a with
  | operate j o =>
    cases ha
    obtain ⟨x, hx, -⟩ := Option.map_eq_some_iff.mp hv
    exact (List.getElem?_eq_some_iff.mp hx).1
  | event => cases ha
  | accept => cases ha
  | start => cases ha
  | connect => cases ha

omit [CongestionControl κ] in
theorem kept_new (loc : Endpoint) (isn : IsnGenerator) (mss : Nat) : (new loc isn mss : Sockets κ).Kept where
  record x t ht := by
    unfold conn at ht
    split at ht
    · cases ht
    · cases ht
  got i x hx := List.nil_sublist _
  fresh i hi := rfl

theorem Kept.after (h : s.Kept) (hv : s.event a = some v) : (s.after a v).Kept where
  record x t ht := by
    unfold conn at ht
    split at ht
    · rename_i hcur
      have hep : x.epoch = s.reactor.age s.epoch v x.remote := (congrArg Incarnation.epoch hcur).symm
      change (if x.epoch = s.reactor.age s.epoch v x.remote then
        (s.reactor.apply v).stack.connection x.remote else none).or (s.record x) = some t
      rw [if_pos hep]
      change (s.reactor.apply v).stack.connection x.remote = some t at ht
      rw [ht]
      rfl
    · cases ht
  got i x hx := by
    change (if handle a = some i ∧ s.target i = s.streams[i]? then s.got i ++ s.returned a else s.got i).Sublist
      (if (handle a).bind s.target = some x then s.taken x ++ s.returned a else s.taken x)
    by_cases hold : i < s.streams.length
    · have hx' : s.streams[i]? = some x := by
        change (s.streams ++ s.created a)[i]? = some x at hx
        rwa [List.getElem?_append_left hold] at hx
      have hsub := h.got i x hx'
      split
      · rename_i hown
        have htarget : (handle a).bind s.target = some x := by
          rw [hown.1, Option.bind_some, hown.2, hx']
        rw [if_pos htarget]
        exact hsub.append_right _
      · split
        · exact hsub.trans (List.sublist_append_left _ _)
        · exact hsub
    · have hnot : ¬ (handle a = some i ∧ s.target i = s.streams[i]?) := fun hc => hold (handle_lt hv hc.1)
      rw [if_neg hnot, h.fresh i (Nat.le_of_not_lt hold)]
      exact List.nil_sublist _
  fresh i hi := by
    have hlen : s.streams.length ≤ i := by
      change (s.streams ++ s.created a).length ≤ i at hi
      rw [List.length_append] at hi
      omega
    have hnot : ¬ (handle a = some i ∧ s.target i = s.streams[i]?) :=
      fun hc => Nat.not_lt.mpr hlen (handle_lt hv hc.1)
    change (if handle a = some i ∧ s.target i = s.streams[i]? then s.got i ++ s.returned a else s.got i) = []
    rw [if_neg hnot]
    exact h.fresh i hlen

/-! ## One read -/

omit [CongestionControl κ] in
/-- All that a retired connection received has been returned. -/
theorem Kept.retired_iff (h : s.Kept) (hx : s.streams[i]? = some x) : s.Retired i x ↔
    ∃ t, s.record x = some t ∧ t.peerFinSeen = true ∧ s.got i = s.taken x ++ t.rx.buf.data := by
  have hle : (s.got i).length ≤ (s.taken x).length := (h.got i x hx).length_le
  refine exists_congr fun t => and_congr_right fun _ => and_congr_right fun _ => ?_
  constructor
  · rintro ⟨hrx, hgot⟩
    have hnil : t.rx.buf.data = [] := Bytes.data_eq_nil.mpr hrx
    rw [hnil, List.append_nil]
    exact hgot
  · intro hgot
    have hnil : t.rx.buf.data = [] := by
      rw [hgot, List.length_append] at hle
      exact List.length_eq_zero_iff.mp (by omega)
    rw [hnil, List.append_nil] at hgot
    exact ⟨Bytes.data_eq_nil.mp hnil, hgot⟩

omit [CongestionControl κ] in
/-- While the connection is in the table. -/
theorem Kept.honest_conn (h : s.Kept) {n : Nat} {w : Waker} (hn : n ≠ 0) (ht : s.conn x = some t) :
    (s.reactor.AtEnd x.remote n w →
        ∃ u, s.record x = some u ∧ u.peerFinSeen = true ∧ s.got i = s.taken x ++ u.rx.buf.data) ↔
      (t.rxAvailable = 0 → t.isReset = false →
        (t.state = .closed → t.peerFinSeen = true) ∧ (t.peerFinSeen = true → s.got i = s.taken x)) := by
  have hrec := h.record x t ht
  have hlive : s.reactor.stack.connection x.remote = some t := by
    unfold conn at ht
    split at ht
    · exact ht
    · cases ht
  have hend : s.reactor.AtEnd x.remote n w ↔
      t.rxAvailable = 0 ∧ t.isReset = false ∧ (t.peerFinSeen = true ∨ t.state = .closed) := by
    rw [Reactor.atEnd_iff hn]
    constructor
    · intro hall
      exact hall t hlive
    · intro hall u hu
      cases hlive.symm.trans hu
      exact hall
  rw [hend]
  constructor
  · intro hhonest hrx hreset
    have hread : t.peerFinSeen = true ∨ t.state = .closed → t.peerFinSeen = true ∧ s.got i = s.taken x := by
      intro hor
      obtain ⟨u, hu, hfin, hgot⟩ := hhonest ⟨hrx, hreset, hor⟩
      cases hrec.symm.trans hu
      have hnil : t.rx.buf.data = [] := Bytes.data_eq_nil.mpr hrx
      rw [hnil, List.append_nil] at hgot
      exact ⟨hfin, hgot⟩
    exact ⟨fun hclosed => (hread (.inr hclosed)).1, fun hfin => (hread (.inl hfin)).2⟩
  · rintro hpunctual ⟨hrx, hreset, hor⟩
    obtain ⟨hclosed, hwhole⟩ := hpunctual hrx hreset
    have hfin : t.peerFinSeen = true := hor.elim id hclosed
    have hnil : t.rx.buf.data = [] := Bytes.data_eq_nil.mpr hrx
    refine ⟨t, hrec, hfin, ?_⟩
    rw [hnil, List.append_nil]
    exact hwhole hfin

omit [CongestionControl κ] in
/-- Once it has left. -/
theorem Kept.honest_gone (h : s.Kept) (hx : s.streams[i]? = some x) {n : Nat} {w : Waker} (hn : n ≠ 0) :
    (s.reactor.AtEnd x.remote n w →
        ∃ u, s.record x = some u ∧ u.peerFinSeen = true ∧ s.got i = s.taken x ++ u.rx.buf.data) ↔
      (s.Retired i x ∨ ∃ t, s.reactor.stack.connection x.remote = some t ∧
        (0 < t.rxAvailable ∨ t.isReset = true ∨ t.peerFinSeen = false ∧ t.state ≠ .closed)) := by
  have hnot : (¬ s.reactor.AtEnd x.remote n w) ↔ ∃ t, s.reactor.stack.connection x.remote = some t ∧
      (0 < t.rxAvailable ∨ t.isReset = true ∨ t.peerFinSeen = false ∧ t.state ≠ .closed) := by
    rw [Reactor.atEnd_iff hn, not_forall]
    refine exists_congr fun t => ?_
    rw [Classical.not_imp]
    refine and_congr_right fun _ => ?_
    rw [not_and_or, not_and_or, not_or, Bool.not_eq_false, Bool.not_eq_true, Nat.pos_iff_ne_zero]
  rw [← h.retired_iff hx, ← hnot, imp_iff_or_not]

omit [CongestionControl κ] in
theorem Kept.honest_iff (h : s.Kept) (a : SocketAct) : s.Honest a ↔ s.Punctual a := by
  cases a with
  | operate i o =>
    cases o with
    | read n w =>
      refine forall_congr' fun hn => forall_congr' fun x => forall_congr' fun hx => ?_
      cases ht : s.conn x with
      | some t => exact h.honest_conn hn ht
      | none => exact h.honest_gone hx hn
    | write data w => exact Iff.rfl
    | close => exact Iff.rfl
  | event v => exact Iff.rfl
  | accept w => exact Iff.rfl
  | start remote w => exact Iff.rfl
  | connect i w => exact Iff.rfl

theorem abandoned_ends : (Run.run step (new ⟨2, 80⟩ ⟨0, 0⟩ 1460) abandoned).any
    (fun s : Sockets Reno => decide (s.streams[0]? = some ⟨⟨1, 1000⟩, 1⟩ ∧
      (s.reactor.pollRead ⟨1, 1000⟩ 4 0).2 = .ready (.ok Bytes.empty) ∧
      ((s.record ⟨⟨1, 1000⟩, 1⟩).any fun t => t.isReset && !t.peerFinSeen) = true)) = true := by
  decide +kernel

end Sockets

end Ferrumnet
