import Diplom.Proof.Incarnations
import Diplom.Spec.Sessions

/-!
# Session notifications

What the `TransportManager` is told of sessions is well bracketed in every run of the two threads
that take turns: exchanges are completed for new connections only, the reader of an outgoing
connection starts, and no close of a connection overlaps its opening or the report of a message of
its peer. `OutgoingHelloExchange` announces the session after it has started the reader, so a reader
that cannot be registered has `CloseFD` report the session lost before it was opened;
`IncomingHelloExchange` announces first.

The invariant says of each connection what the manager should take it for, by the tables and by what
the threads are in the middle of.
-/

namespace Diplom

open Brackets

namespace WellBracketed

theorem nil : WellBracketed [] :=
  ⟨fun _ => alternates_nil, fun before peer msg after h => absurd h (by simp)⟩

theorem snoc {notes : List Notification} {n : Notification} {opened : Conn → Prop}
    (h : WellBracketed notes)
    (hturns : Tells Notification.sessionMark (notes ++ [n]) opened)
    (hmessage : ∀ peer msg, n = .receivedMessage peer msg →
      ∃ dir, IsOpen Notification.sessionMark (peer, dir) notes) : WellBracketed (notes ++ [n]) := by
  refine ⟨hturns.turns, fun before peer msg after heq => ?_⟩
  rcases List.eq_nil_or_concat after with rfl | ⟨after, last, rfl⟩
  · obtain ⟨rfl, hn⟩ := List.append_inj' heq rfl
    exact hmessage peer msg (List.cons.inj hn).1
  · have hsame : notes = before ++ .receivedMessage peer msg :: after := by
      rw [List.concat_eq_append, ← List.cons_append, ← List.append_assoc] at heq
      exact (List.append_inj' heq rfl).1
    exact h.inside before peer msg after hsame

end WellBracketed

namespace Sessions

variable {v v' : Sessions} {t t' : ThreadId} {fd fd' : Fd} {conn : Conn} {d d' : Doing}

theorem go_self (v : Sessions) (t : ThreadId) (doing : Option Doing) (tables : Tables) :
    (v.go t doing tables).doing t = doing :=
  Function.update_self ..

theorem go_of_ne (v : Sessions) (h : t' ≠ t) (doing : Option Doing) (tables : Tables) :
    (v.go t doing tables).doing t' = v.doing t' :=
  Function.update_of_ne h ..

theorem of_go {doing : Option Doing} {tables : Tables}
    (h : (v.go t doing tables).doing t' = some d) :
    t' = t ∧ doing = some d ∨ t' ≠ t ∧ v.doing t' = some d := by
  by_cases ht : t' = t
  · subst ht
    exact .inl ⟨rfl, (go_self ..).symm.trans h⟩
  · exact .inr ⟨ht, (go_of_ne v ht ..).symm.trans h⟩

@[simp] theorem go_tables (v : Sessions) (t : ThreadId) (doing : Option Doing) (tables : Tables) :
    (v.go t doing tables).tables = tables := rfl

theorem LeftTo.conn_ne (h : v.LeftTo t conn) (ht : t' ≠ t) (hd : v.doing t' = some d) :
    d.conn ≠ some conn := by
  have hother : t' = t.other := by
    cases t <;> cases t' <;> first | rfl | exact absurd rfl ht
  subst hother
  exact h d hd

/-! ### What the threads are in the middle of -/

section Midst

variable {P : Doing → Prop} {tables : Tables}

theorem midst_go_of_idle (hidle : v.doing t = none) :
    (v.go t (some d) tables).Midst P ↔ v.Midst P ∨ P d := by
  constructor
  · rintro ⟨t', d', hd', hP⟩
    rcases of_go hd' with ⟨-, heq⟩ | ⟨-, hold⟩
    · exact .inr (Option.some.inj heq ▸ hP)
    · exact .inl ⟨t', d', hold, hP⟩
  · rintro (⟨t', d', hd', hP⟩ | hP)
    · have ht : t' ≠ t := by
        rintro rfl
        exact absurd (hidle.symm.trans hd') (by simp)
      exact ⟨t', d', (go_of_ne v ht ..).trans hd', hP⟩
    · exact ⟨t, d, go_self .., hP⟩

theorem midst_of_go_none (h : (v.go t none tables).Midst P) : v.Midst P := by
  obtain ⟨t', d', hd', hP⟩ := h
  rcases of_go hd' with ⟨-, heq⟩ | ⟨-, hold⟩
  · exact absurd heq (by simp)
  · exact ⟨t', d', hold, hP⟩

theorem midst_go_none (hdoing : v.doing t = some d) (hP : ¬ P d) :
    (v.go t none tables).Midst P ↔ v.Midst P := by
  refine ⟨midst_of_go_none, ?_⟩
  rintro ⟨t', d', hd', hP'⟩
  have ht : t' ≠ t := by
    rintro rfl
    exact hP (Option.some.inj (hd'.symm.trans hdoing) ▸ hP')
  exact ⟨t', d', (go_of_ne v ht ..).trans hd', hP'⟩

theorem midst_go_some (hdoing : v.doing t = some d) (hP : P d' ↔ P d) :
    (v.go t (some d') tables).Midst P ↔ v.Midst P := by
  constructor
  · rintro ⟨t₁, d₁, hd₁, hP₁⟩
    rcases of_go hd₁ with ⟨-, heq⟩ | ⟨-, hold⟩
    · exact ⟨t, d, hdoing, hP.mp (Option.some.inj heq ▸ hP₁)⟩
    · exact ⟨t₁, d₁, hold, hP₁⟩
  · rintro ⟨t₁, d₁, hd₁, hP₁⟩
    by_cases ht : t₁ = t
    · subst ht
      exact ⟨t₁, d', go_self .., hP.mpr (Option.some.inj (hd₁.symm.trans hdoing) ▸ hP₁)⟩
    · exact ⟨t₁, d₁, (go_of_ne v ht ..).trans hd₁, hP₁⟩

end Midst

/-- Nobody is in the middle of opening or closing a connection that the other thread leaves to one
that is idle. -/
theorem LeftTo.not_midst (h : v.LeftTo t conn) (hidle : v.doing t = none) {P : Doing → Prop}
    (hP : ∀ d, P d → d.conn = some conn) : ¬ v.Midst P := by
  rintro ⟨t', d, hd, hPd⟩
  by_cases ht : t' = t
  · subst ht
    exact absurd (hidle.symm.trans hd) (by simp)
  · exact h.conn_ne ht hd (hP d hPd)

theorem conn_of_opens (d : Doing) (h : d.opens = some conn) : d.conn = some conn := by
  cases d <;> first | exact h | exact absurd h (by simp [Doing.opens])

theorem conn_of_closing (d : Doing) (h : d = .closing conn) : d.conn = some conn := h ▸ rfl

/-! ### The tables -/

/-- The tables, by what the threads are in the middle of. -/
structure Sound (v : Sessions) : Prop where
  one : ∀ {t t' : ThreadId} {d d' : Doing} {conn : Conn}, v.doing t = some d →
    v.doing t' = some d' → d.conn = some conn → d'.conn = some conn → t = t'
  entries : ∀ {fd : Fd} {conn : Conn}, v.tables.activeConns fd = some conn →
    v.tables.connToFd conn = some fd ∨ v.Midst (· = .entering fd conn)
  fresh : ∀ {fd : Fd} {conn : Conn}, v.Midst (· = .entering fd conn) →
    v.tables.activeConns fd = some conn ∧ v.tables.connToFd conn = none
  opening : ∀ {conn : Conn}, v.Opening conn → v.Stands conn
  closing : ∀ {conn : Conn}, v.Closing conn → ¬ v.Stands conn
  reports : ∀ {peer : PeerId}, v.Midst (· = .reporting peer) →
    ∃ dir, v.Stands (peer, dir) ∧ ¬ v.Opening (peer, dir)

namespace Sound

theorem unique (h : v.Sound) (hfd : v.tables.activeConns fd = some conn)
    (hfd' : v.tables.activeConns fd' = some conn) : fd = fd' := by
  rcases h.entries hfd with hentry | hmidst
  · rcases h.entries hfd' with hentry' | hmidst'
    · exact Option.some.inj (hentry.symm.trans hentry')
    · exact absurd (hentry.symm.trans (h.fresh hmidst').2) (by simp)
  · rcases h.entries hfd' with hentry' | hmidst'
    · exact absurd (hentry'.symm.trans (h.fresh hmidst).2) (by simp)
    · obtain ⟨t, d, hd, rfl⟩ := hmidst
      obtain ⟨t', d', hd', rfl⟩ := hmidst'
      obtain rfl := h.one hd hd' rfl rfl
      exact (Doing.entering.inj (Option.some.inj (hd.symm.trans hd'))).1

/-- A connection without an entry in `connToFd` is not in `activeConns` either, unless a thread is
entering it. -/
theorem not_stands (h : v.Sound) (hconn : v.tables.connToFd conn = none) (hidle : v.doing t = none)
    (hleft : v.LeftTo t conn) : ¬ v.Stands conn := by
  rintro ⟨fd, hfd⟩
  rcases h.entries hfd with hentry | hmidst
  · exact absurd (hconn.symm.trans hentry) (by simp)
  · exact hleft.not_midst hidle (by rintro _ rfl; rfl) hmidst

theorem leftTo (h : v.Sound) (hd : v.doing t = some d) (hconn : d.conn = some conn) :
    v.LeftTo t conn := by
  intro d' hd' hconn'
  have ht : t = t.other := h.one hd hd' hconn hconn'
  cases t <;> exact absurd ht (by simp [ThreadId.other])

theorem one_go (h : v.Sound) {doing : Option Doing} {tables : Tables}
    (hleft : ∀ d conn, doing = some d → d.conn = some conn → v.LeftTo t conn) {t₁ t₂ : ThreadId}
    {d₁ d₂ : Doing} (h₁ : (v.go t doing tables).doing t₁ = some d₁)
    (h₂ : (v.go t doing tables).doing t₂ = some d₂) (hc₁ : d₁.conn = some conn)
    (hc₂ : d₂.conn = some conn) : t₁ = t₂ := by
  rcases of_go h₁ with ⟨rfl, hd₁⟩ | ⟨hne₁, hd₁⟩
  · rcases of_go h₂ with ⟨rfl, -⟩ | ⟨hne₂, hd₂⟩
    · rfl
    · exact absurd hc₂ ((hleft _ _ hd₁ hc₁).conn_ne hne₂ hd₂)
  · rcases of_go h₂ with ⟨rfl, hd₂⟩ | ⟨-, hd₂⟩
    · exact absurd hc₁ ((hleft _ _ hd₂ hc₂).conn_ne hne₁ hd₁)
    · exact h.one hd₁ hd₂ hc₁ hc₂

end Sound

theorem stands_set (hactive : v.tables.activeConns fd = none) (w : Sessions)
    (hw : w.tables.activeConns = v.tables.activeConns.set fd conn) (c : Conn) :
    w.Stands c ↔ v.Stands c ∨ c = conn := by
  constructor
  · rintro ⟨fd', hfd'⟩
    rw [hw] at hfd'
    by_cases hfd : fd' = fd
    · subst hfd
      exact .inr (Option.some.inj ((PartialMap.set_self _ _ _).symm.trans hfd')).symm
    · exact .inl ⟨fd', (PartialMap.set_of_ne _ hfd _).symm.trans hfd'⟩
  · rintro (⟨fd', hfd'⟩ | rfl)
    · refine ⟨fd', ?_⟩
      have hne : fd' ≠ fd := by
        rintro rfl
        exact absurd (hactive.symm.trans hfd') (by simp)
      rw [hw, PartialMap.set_of_ne _ hne]
      exact hfd'
    · exact ⟨fd, by rw [hw, PartialMap.set_self]⟩

theorem Sound.stands_erase (h : v.Sound) (hactive : v.tables.activeConns fd = some conn)
    (w : Sessions) (hw : w.tables.activeConns = v.tables.activeConns.erase fd) (c : Conn) :
    w.Stands c ↔ v.Stands c ∧ c ≠ conn := by
  constructor
  · rintro ⟨fd', hfd'⟩
    rw [hw] at hfd'
    obtain ⟨hne, hfd'⟩ := (PartialMap.erase_eq_some _).mp hfd'
    refine ⟨⟨fd', hfd'⟩, ?_⟩
    rintro rfl
    exact hne (h.unique hfd' hactive)
  · rintro ⟨⟨fd', hfd'⟩, hne⟩
    refine ⟨fd', ?_⟩
    rw [hw]
    refine (PartialMap.erase_eq_some _).mpr ⟨?_, hfd'⟩
    rintro rfl
    exact hne (Option.some.inj (hfd'.symm.trans hactive))

/-! ### One turn -/

namespace Sound

theorem entered (h : v.Sound) (hidle : v.doing t = none) (hactive : v.tables.activeConns fd = none)
    (hconn : v.tables.connToFd conn = none) (hleft : v.LeftTo t conn) :
    (v.go t (some (.entering fd conn))
      ⟨v.tables.activeConns.set fd conn, v.tables.connToFd, v.tables.notes⟩).Sound := by
  have hstands := stands_set hactive (v.go t (some (.entering fd conn))
    ⟨v.tables.activeConns.set fd conn, v.tables.connToFd, v.tables.notes⟩) rfl
  have hnew := h.not_stands hconn hidle hleft
  refine ⟨fun h₁ h₂ => h.one_go ?_ h₁ h₂, ?_, ?_, ?_, ?_, ?_⟩
  · rintro _ conn' ⟨⟩ ⟨⟩
    exact hleft
  · intro fd' conn' hfd'
    rw [midst_go_of_idle hidle]
    by_cases hfd : fd' = fd
    · subst hfd
      obtain rfl := Option.some.inj ((PartialMap.set_self _ _ _).symm.trans hfd')
      exact .inr (.inr rfl)
    · exact (h.entries ((PartialMap.set_of_ne _ hfd _).symm.trans hfd')).imp_right .inl
  · intro fd' conn' hmidst
    rcases (midst_go_of_idle hidle).mp hmidst with hmidst | heq
    · obtain ⟨hactive', hconn'⟩ := h.fresh hmidst
      refine ⟨(PartialMap.set_of_ne _ ?_ _).trans hactive', hconn'⟩
      rintro rfl
      exact absurd (hactive.symm.trans hactive') (by simp)
    · obtain ⟨rfl, rfl⟩ := Doing.entering.inj heq
      exact ⟨PartialMap.set_self _ _ _, hconn⟩
  · intro conn' hopening
    refine (hstands conn').mpr ?_
    rcases (midst_go_of_idle hidle).mp hopening with hopening | heq
    · exact .inl (h.opening hopening)
    · exact .inr (Option.some.inj heq).symm
  · intro conn' hclosing hstands'
    rcases (midst_go_of_idle hidle).mp hclosing with hbefore | heq
    · rcases (hstands conn').mp hstands' with hold | rfl
      · exact h.closing hbefore hold
      · exact hleft.not_midst hidle conn_of_closing hbefore
    · exact absurd heq (by simp)
  · intro peer hmidst
    rcases (midst_go_of_idle hidle).mp hmidst with hmidst | heq
    · obtain ⟨dir, hdir, hopening⟩ := h.reports hmidst
      refine ⟨dir, (hstands _).mpr (.inl hdir), fun hopening' => ?_⟩
      rcases (midst_go_of_idle hidle).mp hopening' with hopening' | heq
      · exact hopening hopening'
      · exact hnew (Option.some.inj heq ▸ hdir)
    · exact absurd heq (by simp)

theorem indexed (h : v.Sound) (hdoing : v.doing t = some (.entering fd conn)) :
    (v.go t (some (.opening conn))
      ⟨v.tables.activeConns, v.tables.connToFd.insert conn fd, v.tables.notes⟩).Sound := by
  obtain ⟨hactive, hnone⟩ := h.fresh ⟨t, _, hdoing, rfl⟩
  have hleft := h.leftTo hdoing rfl
  refine ⟨fun h₁ h₂ => h.one_go ?_ h₁ h₂, ?_, ?_, ?_, ?_, ?_⟩
  · rintro _ conn' ⟨⟩ ⟨⟩
    exact hleft
  · intro fd' conn' hfd'
    rw [go_tables, PartialMap.insert_of_none _ hnone]
    by_cases hconn : conn' = conn
    · subst hconn
      rw [h.unique hfd' hactive]
      exact .inl (PartialMap.set_self _ _ _)
    · rw [midst_go_some hdoing (by simp [Ne.symm hconn])]
      exact (h.entries hfd').imp_left (PartialMap.set_of_ne _ hconn _).trans
  · rintro fd' conn' ⟨t', d, hd, rfl⟩
    rcases of_go hd with ⟨-, heq⟩ | ⟨ht, hd'⟩
    · exact absurd heq (by simp)
    · refine (h.fresh ⟨t', _, hd', rfl⟩).imp_right fun hnone' => ?_
      refine (PartialMap.insert_of_ne _ ?_ _).trans hnone'
      rintro rfl
      exact hleft.conn_ne ht hd' rfl
  · intro conn' hopening
    exact h.opening ((midst_go_some hdoing (by simp [Doing.opens])).mp hopening)
  · intro conn' hclosing
    exact h.closing ((midst_go_some hdoing (by simp)).mp hclosing)
  · intro peer hmidst
    obtain ⟨dir, hdir, hopening⟩ := h.reports ((midst_go_some hdoing (by simp)).mp hmidst)
    exact ⟨dir, hdir, fun hopening' =>
      hopening ((midst_go_some hdoing (by simp [Doing.opens])).mp hopening')⟩

theorem through (h : v.Sound) (hdoing : v.doing t = some d) (hd : ∀ fd conn, d ≠ .entering fd conn)
    (notes : List Notification) :
    (v.go t none ⟨v.tables.activeConns, v.tables.connToFd, notes⟩).Sound := by
  refine ⟨fun h₁ h₂ => h.one_go (by simp) h₁ h₂, ?_, ?_, ?_, ?_, ?_⟩
  · intro fd' conn' hfd'
    rw [midst_go_none hdoing (hd fd' conn')]
    exact h.entries hfd'
  · intro fd' conn' hmidst
    exact h.fresh (midst_of_go_none hmidst)
  · intro conn' hopening
    exact h.opening (midst_of_go_none hopening)
  · intro conn' hclosing
    exact h.closing (midst_of_go_none hclosing)
  · intro peer hmidst
    obtain ⟨dir, hdir, hopening⟩ := h.reports (midst_of_go_none hmidst)
    exact ⟨dir, hdir, fun hopening' => hopening (midst_of_go_none hopening')⟩

theorem taken (h : v.Sound) (hidle : v.doing t = none)
    (hactive : v.tables.activeConns fd = some conn) (hleft : v.LeftTo t conn)
    (hunread : v.doing t.other ≠ some (.reporting conn.1)) :
    (v.go t (some (.closing conn))
      ⟨v.tables.activeConns.erase fd, v.tables.connToFd, v.tables.notes⟩).Sound := by
  have hstands := h.stands_erase hactive (v.go t (some (.closing conn))
    ⟨v.tables.activeConns.erase fd, v.tables.connToFd, v.tables.notes⟩) rfl
  refine ⟨fun h₁ h₂ => h.one_go ?_ h₁ h₂, ?_, ?_, ?_, ?_, ?_⟩
  · rintro _ conn' ⟨⟩ ⟨⟩
    exact hleft
  · intro fd' conn' hfd'
    rw [midst_go_of_idle hidle]
    exact (h.entries ((PartialMap.erase_eq_some _).mp hfd').2).imp_right .inl
  · intro fd' conn' hmidst
    rcases (midst_go_of_idle hidle).mp hmidst with hbefore | heq
    · refine (h.fresh hbefore).imp_left fun hactive' => ?_
      refine (PartialMap.erase_eq_some _).mpr ⟨?_, hactive'⟩
      rintro rfl
      obtain rfl := Option.some.inj (hactive.symm.trans hactive')
      exact hleft.not_midst hidle (by rintro _ rfl; rfl) hbefore
    · exact absurd heq (by simp)
  · intro conn' hopening
    rcases (midst_go_of_idle hidle).mp hopening with hbefore | heq
    · refine (hstands conn').mpr ⟨h.opening hbefore, ?_⟩
      rintro rfl
      exact hleft.not_midst hidle conn_of_opens hbefore
    · exact absurd heq (by simp [Doing.opens])
  · intro conn' hclosing hstands'
    obtain ⟨hold, hne⟩ := (hstands conn').mp hstands'
    rcases (midst_go_of_idle hidle).mp hclosing with hclosing | heq
    · exact h.closing hclosing hold
    · exact hne (Doing.closing.inj heq).symm
  · intro peer hmidst
    rcases (midst_go_of_idle hidle).mp hmidst with hbefore | heq
    · obtain ⟨dir, hdir, hopening⟩ := h.reports hbefore
      refine ⟨dir, (hstands _).mpr ⟨hdir, ?_⟩, fun hopening' => ?_⟩
      · rintro rfl
        obtain ⟨t', d, hd, rfl⟩ := hbefore
        have ht : t' = t.other := by
          cases t <;> cases t' <;> first | rfl | exact absurd (hidle.symm.trans hd) (by simp)
        exact hunread (ht ▸ hd)
      · rcases (midst_go_of_idle hidle).mp hopening' with hopening' | heq
        · exact hopening hopening'
        · exact absurd heq (by simp [Doing.opens])
    · exact absurd heq (by simp)

theorem unindexed (h : v.Sound) (hdoing : v.doing t = some (.closing conn)) :
    Sound ⟨⟨v.tables.activeConns, v.tables.connToFd.erase conn, v.tables.notes⟩, v.doing⟩ := by
  refine ⟨h.one, fun {fd' conn'} hfd' => ?_, fun hmidst => ?_, h.opening, h.closing, h.reports⟩
  · refine (h.entries hfd').imp_left fun hentry => (PartialMap.erase_of_ne _ ?_).trans hentry
    rintro rfl
    exact h.closing ⟨t, _, hdoing, rfl⟩ ⟨fd', hfd'⟩
  · refine (h.fresh hmidst).imp_right fun hnone => ?_
    refine (PartialMap.erase_apply _ _ _).trans ?_
    rw [hnone, ite_self]

theorem looked (h : v.Sound) (hidle : v.doing t = none)
    (hactive : v.tables.activeConns fd = some conn) (hleft : v.LeftTo t conn) :
    (v.go t (some (.reporting conn.1)) v.tables).Sound := by
  refine ⟨fun h₁ h₂ => h.one_go ?_ h₁ h₂, ?_, ?_, ?_, ?_, ?_⟩
  · rintro _ conn' ⟨⟩ ⟨⟩
  · intro fd' conn' hfd'
    rw [midst_go_of_idle hidle]
    exact (h.entries hfd').imp_right .inl
  · intro fd' conn' hmidst
    exact h.fresh (((midst_go_of_idle hidle).mp hmidst).resolve_right (by simp))
  · intro conn' hopening
    exact h.opening (((midst_go_of_idle hidle).mp hopening).resolve_right (by simp [Doing.opens]))
  · intro conn' hclosing
    exact h.closing (((midst_go_of_idle hidle).mp hclosing).resolve_right (by simp))
  · intro peer hmidst
    have hkept : ∀ {c}, (v.go t (some (.reporting conn.1)) v.tables).Opening c → v.Opening c :=
      fun hopening =>
        ((midst_go_of_idle hidle).mp hopening).resolve_right (by simp [Doing.opens])
    rcases (midst_go_of_idle hidle).mp hmidst with hmidst | heq
    · obtain ⟨dir, hdir, hopening⟩ := h.reports hmidst
      exact ⟨dir, hdir, fun hopening' => hopening (hkept hopening')⟩
    · obtain rfl := Doing.reporting.inj heq
      exact ⟨conn.2, ⟨fd, hactive⟩, fun hopening =>
        hleft.not_midst hidle conn_of_opens (hkept hopening)⟩

theorem turn (h : v.Sound) (hturn : v.Turn v') : v'.Sound := by
  cases hturn with
  | aside _ _ => exact ⟨h.one, h.entries, h.fresh, h.opening, h.closing, h.reports⟩
  | entered hidle hactive hconn hleft => exact h.entered hidle hactive hconn hleft
  | indexed hdoing => exact h.indexed hdoing
  | announced hdoing => exact h.through hdoing (by simp) _
  | taken hidle hactive hleft hunread => exact h.taken hidle hactive hleft hunread
  | unindexed hdoing => exact h.unindexed hdoing
  | lost hdoing => exact h.through hdoing (by simp) _
  | looked hidle hactive hleft => exact h.looked hidle hactive hleft
  | reported hdoing => exact h.through hdoing (by simp) _

end Sound

/-! ### The notifications -/

/-- The manager has been told of the open sessions. -/
structure Told (v : Sessions) : Prop where
  sound : v.Sound
  tells : Tells Notification.sessionMark v.tables.notes v.Open
  bracketed : WellBracketed v.tables.notes

namespace Told

theorem note (h : v.Told) {n : Notification} (hnotes : v'.tables.notes = v.tables.notes ++ [n])
    (hsound : v'.Sound) (htells : Tells Notification.sessionMark (v.tables.notes ++ [n]) v'.Open)
    (hmessage : ∀ peer msg, n = .receivedMessage peer msg →
      ∃ dir, IsOpen Notification.sessionMark (peer, dir) v.tables.notes) : v'.Told := by
  refine ⟨hsound, ?_, ?_⟩
  · rw [hnotes]
    exact htells
  · rw [hnotes]
    exact h.bracketed.snoc htells hmessage

theorem silent (h : v.Told) (hnotes : v'.tables.notes = v.tables.notes) (hsound : v'.Sound)
    (hopen : ∀ conn, v'.Open conn ↔ v.Open conn) : v'.Told := by
  refine ⟨hsound, ?_, ?_⟩
  · rw [hnotes]
    exact h.tells.congr hopen
  · rw [hnotes]
    exact h.bracketed

theorem entered (h : v.Told) (hidle : v.doing t = none) (hactive : v.tables.activeConns fd = none)
    (hconn : v.tables.connToFd conn = none) (hleft : v.LeftTo t conn) :
    (v.go t (some (.entering fd conn))
      ⟨v.tables.activeConns.set fd conn, v.tables.connToFd, v.tables.notes⟩).Told := by
  refine h.silent rfl (h.sound.entered hidle hactive hconn hleft) fun c => ?_
  have hnew := h.sound.not_stands hconn hidle hleft
  rw [Open, Opening, Closing, stands_set hactive _ rfl, midst_go_of_idle hidle,
    midst_go_of_idle hidle]
  by_cases hc : c = conn
  · subst hc
    simp [Open, Closing, Doing.opens, hnew]
  · simp [Open, Opening, Closing, Doing.opens, hc, Ne.symm hc]

theorem indexed (h : v.Told) (hdoing : v.doing t = some (.entering fd conn)) :
    (v.go t (some (.opening conn))
      ⟨v.tables.activeConns, v.tables.connToFd.insert conn fd, v.tables.notes⟩).Told := by
  refine h.silent rfl (h.sound.indexed hdoing) fun c => ?_
  rw [Open, Opening, Closing, midst_go_some hdoing (by simp [Doing.opens]),
    midst_go_some hdoing (by simp)]
  exact Iff.rfl

theorem announced (h : v.Told) (hdoing : v.doing t = some (.opening conn)) :
    (v.go t none (v.tables.note (.sessionOpened conn.1 conn.2))).Told := by
  have hsound := h.sound.through hdoing (by simp) (v.tables.notes ++ [.sessionOpened conn.1 conn.2])
  have hopening : v.Opening conn := ⟨t, _, hdoing, rfl⟩
  have hstands : v.Stands conn := h.sound.opening hopening
  have hleft := h.sound.leftTo hdoing rfl
  have hclosing : ¬ v.Closing conn := fun hclosing => h.sound.closing hclosing hstands
  have hdone : ¬ (v.go t none (v.tables.note (.sessionOpened conn.1 conn.2))).Opening conn := by
    rintro ⟨t', d, hd, hopens⟩
    rcases of_go hd with ⟨-, heq⟩ | ⟨ht, hd⟩
    · exact absurd heq (by simp)
    · exact hleft.conn_ne ht hd (conn_of_opens d hopens)
  refine h.note rfl hsound (h.tells.own (b := true) rfl ?_ ?_ ?_) (by simp)
  · simp [Open, hopening, hclosing]
  · exact iff_of_true (.inl ⟨hstands, hdone⟩) rfl
  · intro c hc
    rw [Open, Opening, Closing, midst_go_none hdoing (by simp [Doing.opens, Ne.symm hc]),
      midst_go_none hdoing (by simp)]
    exact Iff.rfl

/-- A session stays open while its connection is taken out of the tables. -/
theorem taken (h : v.Told) (hidle : v.doing t = none)
    (hactive : v.tables.activeConns fd = some conn) (hleft : v.LeftTo t conn)
    (hunread : v.doing t.other ≠ some (.reporting conn.1)) :
    (v.go t (some (.closing conn))
      ⟨v.tables.activeConns.erase fd, v.tables.connToFd, v.tables.notes⟩).Told := by
  refine h.silent rfl (h.sound.taken hidle hactive hleft hunread) fun c => ?_
  have hstands : v.Stands conn := ⟨fd, hactive⟩
  have hopening : ¬ v.Opening conn := hleft.not_midst hidle conn_of_opens
  rw [Open, Opening, Closing, h.sound.stands_erase hactive _ rfl, midst_go_of_idle hidle,
    midst_go_of_idle hidle]
  by_cases hc : c = conn
  · subst hc
    simp [Open, hstands, hopening]
  · simp [Open, Opening, Closing, Doing.opens, hc, Ne.symm hc]

/-- A session is open until it is reported lost. -/
theorem lost (h : v.Told) (hdoing : v.doing t = some (.closing conn)) :
    (v.go t none (v.tables.note (.sessionLost conn.1 conn.2))).Told := by
  have hsound := h.sound.through hdoing (by simp) (v.tables.notes ++ [.sessionLost conn.1 conn.2])
  have hclosing : v.Closing conn := ⟨t, _, hdoing, rfl⟩
  have hstands : ¬ v.Stands conn := h.sound.closing hclosing
  have hleft := h.sound.leftTo hdoing rfl
  have hdone : ¬ (v.go t none (v.tables.note (.sessionLost conn.1 conn.2))).Closing conn := by
    rintro ⟨t', d, hd, rfl⟩
    rcases of_go hd with ⟨-, heq⟩ | ⟨ht, hd⟩
    · exact absurd heq (by simp)
    · exact hleft.conn_ne ht hd rfl
  refine h.note rfl hsound (h.tells.own (b := false) rfl ?_ ?_ ?_) (by simp)
  · simp [Open, hclosing]
  · refine iff_of_false ?_ (by simp)
    rintro (⟨hstands', -⟩ | hclosing')
    · exact hstands hstands'
    · exact hdone hclosing'
  · intro c hc
    rw [Open, Opening, Closing, midst_go_none hdoing (by simp [Doing.opens]),
      midst_go_none hdoing (by simp [Ne.symm hc])]
    exact Iff.rfl

theorem looked (h : v.Told) (hidle : v.doing t = none)
    (hactive : v.tables.activeConns fd = some conn) (hleft : v.LeftTo t conn) :
    (v.go t (some (.reporting conn.1)) v.tables).Told := by
  refine h.silent rfl (h.sound.looked hidle hactive hleft) fun c => ?_
  rw [Open, Opening, Closing, midst_go_of_idle hidle, midst_go_of_idle hidle]
  simp [Open, Stands, Opening, Closing, Doing.opens]

theorem reported (h : v.Told) {peer : PeerId} {msg : Message}
    (hdoing : v.doing t = some (.reporting peer)) :
    (v.go t none (v.tables.note (.receivedMessage peer msg))).Told := by
  have hsound := h.sound.through hdoing (by simp) (v.tables.notes ++ [.receivedMessage peer msg])
  refine h.note rfl hsound ((h.tells.aside rfl).congr fun c => ?_) fun peer' msg' heq => ?_
  · rw [Open, Opening, Closing, midst_go_none hdoing (by simp [Doing.opens]),
      midst_go_none hdoing (by simp)]
    exact Iff.rfl
  · obtain ⟨rfl, -⟩ := Notification.receivedMessage.inj heq
    obtain ⟨dir, hstands, hopening⟩ := h.sound.reports ⟨t, _, hdoing, rfl⟩
    exact ⟨dir, (h.tells.last _).mpr (.inl ⟨hstands, hopening⟩)⟩

theorem turn (h : v.Told) (hturn : v.Turn v') : v'.Told := by
  cases hturn with
  | aside hmark hmessage =>
      exact h.note rfl (h.sound.turn (.aside hmark hmessage)) (h.tells.aside hmark)
        fun peer msg heq => absurd heq (hmessage peer msg)
  | entered hidle hactive hconn hleft => exact h.entered hidle hactive hconn hleft
  | indexed hdoing => exact h.indexed hdoing
  | announced hdoing => exact h.announced hdoing
  | taken hidle hactive hleft hunread => exact h.taken hidle hactive hleft hunread
  | unindexed hdoing => exact h.silent rfl (h.sound.unindexed hdoing) fun c => Iff.rfl
  | lost hdoing => exact h.lost hdoing
  | looked hidle hactive hleft => exact h.looked hidle hactive hleft
  | reported hdoing => exact h.reported hdoing

end Told

/-- A thread that was in the middle of nothing, or goes on being in the middle of the same. -/
theorem go_same (v : Sessions) (doing : Option Doing) (h : v.doing t = doing) (tables : Tables) :
    v.go t doing tables = ⟨tables, v.doing⟩ := by
  subst h
  exact congrArg (Sessions.mk tables) (Function.update_eq_self t v.doing)

end Sessions

/-! ### The stack of a thread -/

/-- At most one section of a thread is about a session: the next, or the announcement behind the
reader of an outgoing connection. -/
inductive Shaped : List Section → Prop
  | next {work : List Section} (h : ∀ sec ∈ work.tail, sec.doing = none) : Shaped work
  | reader {h : Handle} {peer : PeerId} {dir : LinkDirection} {rest : List Section}
      (hrest : ∀ sec ∈ rest, sec.doing = none) :
      Shaped (.recvMessage h .readMessage :: .notify (.sessionOpened peer dir) :: rest)

theorem Shaped.append {next rest : List Section} (h : Shaped next)
    (hrest : ∀ sec ∈ rest, sec.doing = none) : Shaped (next ++ rest) := by
  cases h with
  | next h =>
      cases next with
      | nil => exact .next fun sec hsec => hrest sec (List.mem_of_mem_tail hsec)
      | cons sec next =>
          refine .next fun sec' hsec' => ?_
          rcases List.mem_append.mp hsec' with hnext | hrest'
          · exact h sec' hnext
          · exact hrest sec' hrest'
  | reader h =>
      refine .reader fun sec hsec => ?_
      rcases List.mem_append.mp hsec with hnext | hrest'
      · exact h sec hnext
      · exact hrest sec hrest'

theorem Call.sections_doing (call : Call) : ∀ sec ∈ call.sections, sec.doing = none := by
  cases call with
  | openSession peer => simp [Call.sections, Section.doing]
  | sendMessage peer msg => simp [Call.sections, Section.doing]
  | closeSession peer dir => cases dir <;> simp [Call.sections, Section.doing]

theorem findSome_doing {work : List Section} (h : ∀ sec ∈ work, sec.doing = none) :
    work.findSome? Section.doing = none :=
  List.findSome?_eq_none_iff.mpr h

namespace Shared

variable {s s' : Shared} {sec : Section} {next : List Section} {v : Sessions} {t : ThreadId}

/-- What a section does to the sessions: nothing, or one turn. -/
def Advances (v : Sessions) (t : ThreadId) (s' : Shared) (next : List Section) : Prop :=
  Shaped next ∧ (v.go t (next.findSome? Section.doing) s'.tables = v ∨
    v.Turn (v.go t (next.findSome? Section.doing) s'.tables))

theorem Advances.same (hshaped : Shaped next)
    (hdoing : v.doing t = next.findSome? Section.doing) (htables : s'.tables = v.tables) :
    Advances v t s' next :=
  ⟨hshaped, .inl (by rw [v.go_same _ hdoing, htables])⟩

theorem Advances.calm (hdoing : v.doing t = none) (htables : s'.tables = v.tables)
    (hnext : ∀ sec ∈ next, sec.doing = none) : Advances v t s' next :=
  .same (.next fun sec hsec => hnext sec (List.mem_of_mem_tail hsec))
    (hdoing.trans (findSome_doing hnext).symm) htables

theorem Leads.advances (h : s.Leads sec next) (htables : s.tables = v.tables)
    (hdoing : v.doing t = sec.doing) (hok : v.Permits t sec) : Advances v t s next := by
  cases h with
  | @messageRead hd conn msg hactive =>
      have hactive' : v.tables.activeConns hd.fd = some conn := by rw [← htables]; exact hactive
      refine ⟨.next (by simp [Section.doing]), .inr ?_⟩
      rw [htables]
      exact .looked hdoing hactive' (hok conn hactive')
  | _ => exact .calm hdoing htables (by simp [Section.doing])

theorem notify_advances {note : Notification} (calls : List Call) (htables : s.tables = v.tables)
    (hdoing : v.doing t = (Section.notify note).doing) :
    Advances v t (s.setManager (s.manager.notify note)) (calls.flatMap Call.sections) := by
  have hcalls : ∀ sec ∈ calls.flatMap Call.sections, sec.doing = none := by
    intro sec hsec
    obtain ⟨call, -, hmem⟩ := List.mem_flatMap.mp hsec
    exact call.sections_doing sec hmem
  have htables' : (s.setManager (s.manager.notify note)).tables = v.tables.note note := by
    rw [← htables]
    rfl
  refine ⟨.next fun sec hsec => hcalls sec (List.mem_of_mem_tail hsec), .inr ?_⟩
  rw [findSome_doing hcalls, htables']
  cases note with
  | sessionOpened peer dir => exact .announced hdoing
  | sessionLost peer dir => exact .lost hdoing
  | receivedMessage peer msg => exact .reported hdoing
  | _ =>
      rw [v.go_same none hdoing]
      exact .aside rfl (by simp)

theorem Runs.advances (h : s.Runs sec s' next) (htables : s.tables = v.tables)
    (hdoing : v.doing t = sec.doing) (hok : v.Permits t sec) : Advances v t s' next := by
  cases h with
  | leads h => exact h.advances htables hdoing hok
  | notify => exact notify_advances _ htables hdoing
  | @insertActive hd conn =>
      obtain ⟨hactive, hconn, hleft⟩ := hok
      have htables' : (s.insertActive hd conn).tables
          = ⟨v.tables.activeConns.set hd.fd conn, v.tables.connToFd, v.tables.notes⟩ := by
        rw [← PartialMap.insert_of_none _ hactive, ← htables]
        rfl
      refine ⟨.next (by simp), .inr ?_⟩
      rw [htables']
      exact .entered hdoing hactive hconn hleft
  | @insertConnToFd hd conn =>
      have htables' : (s.insertConnToFd hd conn).tables
          = ⟨v.tables.activeConns, v.tables.connToFd.insert conn hd.fd, v.tables.notes⟩ := by
        rw [← htables]
        rfl
      refine ⟨.next (by simp), .inr ?_⟩
      rw [htables']
      exact .indexed hdoing
  | @insertQueue hd conn =>
      refine .same ?_ (hdoing.trans ?_) htables
      · unfold opened
        split
        · exact .reader (by simp)
        · exact .next (by simp [Section.doing])
      · unfold opened
        split <;> rfl
  | @eraseActive hd conn hactive =>
      have hactive' : v.tables.activeConns hd.fd = some conn := by rw [← htables]; exact hactive
      obtain ⟨hleft, hunread⟩ := hok conn hactive'
      have hturn := Sessions.Turn.taken hdoing hactive' hleft hunread
      rw [← htables] at hturn
      exact ⟨.next (by simp), .inr hturn⟩
  | @eraseConnToFd hd conn =>
      have hturn := Sessions.Turn.unindexed hdoing
      refine ⟨.next (by simp), .inr ?_⟩
      rw [v.go_same ([Section.eraseQueue hd conn].findSome? Section.doing) hdoing]
      rw [← htables] at hturn
      exact hturn
  | eraseQueue => exact .same (.next (by simp)) hdoing htables
  | opens _ htold =>
      refine .calm hdoing htables ?_
      rcases htold with rfl | rfl
      · simp [Section.doing]
      · simp [Section.doing]
  | pushBack _ => exact .calm hdoing htables (by split <;> simp [Section.doing])
  | popFront _ => exact .calm hdoing htables (by split <;> simp [Section.doing])
  | _ => exact .calm hdoing htables (by simp [Section.doing])

end Shared

namespace Process

variable {p p' : Process} {input : Input}

/-- What the manager has been told fits the stacks of the threads. -/
structure Told (p : Process) : Prop where
  wf : p.Wf
  shaped : ∀ t, Shaped (p.work t)
  told : p.sessions.Told

theorem shaped_setWork (h : ∀ t, Shaped (p.work t)) {t : ThreadId} {work : List Section}
    (hwork : Shaped work) (t' : ThreadId) : Shaped ((p.setWork t work).work t') := by
  by_cases ht : t' = t
  · subst ht
    rw [setWork_self]
    exact hwork
  · rw [setWork_of_ne p ht]
    exact h t'

theorem sessions_setWork {t : ThreadId} {work : List Section}
    (hwork : p'.work = (p.setWork t work).work) :
    p'.sessions = p.sessions.go t (work.findSome? Section.doing) p'.shared.tables := by
  refine congrArg (Sessions.mk p'.shared.tables) ?_
  funext t'
  rw [hwork, Function.update_apply]
  split
  · rename_i ht
    subst ht
    exact congrArg (List.findSome? Section.doing) (setWork_self p _ work)
  · rename_i ht
    exact congrArg (List.findSome? Section.doing) (setWork_of_ne p ht work)

theorem Told.goOn (h : p.Told) (hwf : p'.Wf) {t : ThreadId} {work : List Section}
    (hwork : p'.work = (p.setWork t work).work)
    (hadvances : Shared.Advances p.sessions t p'.shared work) : p'.Told := by
  obtain ⟨hshaped, hturn⟩ := hadvances
  refine ⟨hwf, fun t' => ?_, ?_⟩
  · rw [hwork]
    exact shaped_setWork h.shaped hshaped t'
  · rw [sessions_setWork hwork]
    rcases hturn with hsame | hturn
    · rw [hsame]
      exact h.told
    · exact h.told.turn hturn

theorem Told.still (h : p.Told) (hwf : p'.Wf) (hwork : p'.work = p.work)
    (htables : p'.shared.tables = p.shared.tables) : p'.Told := by
  refine ⟨hwf, fun t => ?_, ?_⟩
  · rw [hwork]
    exact h.shaped t
  · have hsame : p'.sessions = p.sessions := by
      rw [sessions, hwork, htables]
      rfl
    rw [hsame]
    exact h.told

/-- A thread that was in the middle of nothing begins something that is about no session. -/
theorem Told.begin (h : p.Told) (hwf : p'.Wf) {t : ThreadId} {work : List Section}
    (hidle : p.work t = []) (hwork : p'.work = (p.setWork t work).work)
    (htables : p'.shared.tables = p.shared.tables) (hcalm : ∀ sec ∈ work, sec.doing = none) :
    p'.Told := by
  refine h.goOn hwf hwork (.calm ?_ htables hcalm)
  simp [sessions, hidle]

theorem reader_advances {t : ThreadId} {answer : Answer} {hd : Handle} {peer : PeerId}
    {dir : LinkDirection} {rest next : List Section} {shared : Shared}
    (hwork : p.work t
      = .recvMessage hd .readMessage :: .notify (.sessionOpened peer dir) :: rest)
    (hrest : ∀ sec ∈ rest, sec.doing = none) (hok : p.TakesTurns (.run t answer))
    (hrun : p.shared.run answer (.recvMessage hd .readMessage) = some (shared, next)) :
    Shared.Advances p.sessions t shared (next ++ .notify (.sessionOpened peer dir) :: rest) := by
  simp only [TakesTurns, hwork] at hok
  obtain ⟨io, hio⟩ := Option.isSome_iff_exists.mp hok
  have heq : ((((p.shared.touch .registerAction hd (p.shared.socketAt hd.fd)).setIo io).claim hd
      .input), []) = (shared, next) := by
    simpa [Shared.run, Shared.recvMessage, Shared.touch, hio] using hrun
  obtain ⟨rfl, rfl⟩ := Prod.mk.inj heq
  refine .same (.next hrest) ?_ rfl
  simp only [sessions, hwork]
  rfl

theorem sessions_doing {t : ThreadId} {sec : Section} {rest : List Section}
    (hwork : p.work t = sec :: rest) (hrest : ∀ sec' ∈ rest, sec'.doing = none) :
    p.sessions.doing t = sec.doing := by
  simp only [sessions, hwork, List.findSome?_cons]
  cases sec.doing with
  | none => exact findSome_doing hrest
  | some d => rfl

theorem Told.run (h : p.Told) {t : ThreadId} {answer : Answer} {sec : Section}
    {rest next : List Section} {shared : Shared} (hwork : p.work t = sec :: rest)
    (hok : p.TakesTurns (.run t answer))
    (hrun : p.shared.run answer sec = some (shared, next)) :
    Shared.Advances p.sessions t shared (next ++ rest) := by
  have hshaped := h.shaped t
  rw [hwork] at hshaped
  cases hshaped with
  | reader hrest => exact reader_advances hwork hrest hok hrun
  | next hrest =>
      rw [List.tail_cons] at hrest
      have hpermits : p.sessions.Permits t sec := by
        simp only [TakesTurns, hwork] at hok
        split at hok
        · rename_i heq
          exact absurd heq (by simp)
        · rename_i heq
          rw [(List.cons.inj heq).1]
          trivial
        · rename_i heq
          rw [(List.cons.inj heq).1]
          exact hok
      obtain ⟨hnext, hturn⟩ :=
        (Shared.run_cases hrun).advances rfl (sessions_doing hwork hrest) hpermits
      refine ⟨hnext.append hrest, ?_⟩
      rw [List.findSome?_append, findSome_doing hrest, Option.or_none]
      exact hturn

theorem Told.passes (h : p.Told) (hwf : p'.Wf) {t : ThreadId} {sec : Section} {rest : List Section}
    (hwork : p.work t = sec :: rest) (hsec : sec = .lockConn ∨ sec = .unlockConn)
    (hwork' : p'.work = (p.setWork t rest).work) (htables : p'.shared.tables = p.shared.tables) :
    p'.Told := by
  have hrest : ∀ sec' ∈ rest, sec'.doing = none := by
    have hshaped := h.shaped t
    rw [hwork] at hshaped
    cases hshaped with
    | next hrest => exact hrest
    | reader hrest => exact absurd hsec (by simp)
  refine h.goOn hwf hwork' (.calm ?_ htables hrest)
  rw [sessions_doing hwork hrest]
  rcases hsec with rfl | rfl <;> rfl

theorem Told.step (h : p.Told) (hok : p.TakesTurns input) (hstep : Step p input p') : p'.Told := by
  have hwf := h.wf.step hstep
  cases hstep with
  | run hwork hrun => exact h.goOn hwf rfl (h.run hwork hok hrun)
  | lock hwork _ => exact h.passes hwf hwork (.inl rfl) rfl rfl
  | unlock hwork => exact h.passes hwf hwork (.inr rfl) rfl rfl
  | @call t call hidle => exact h.begin hwf hidle.1 rfl rfl call.sections_doing
  | accept hidle _ => exact h.begin hwf hidle.1 rfl rfl (by simp [Section.doing])
  | @resolved ok r next hrunning houtcome =>
      refine h.begin hwf (h.wf.alone (by simp [hrunning])) rfl rfl fun sec hsec => ?_
      obtain rfl := List.mem_singleton.mp hsec
      have hresolves : r.Resolves sec := (h.wf.running r hrunning).fits _ houtcome
      unfold Running.Resolves at hresolves
      split at hresolves <;> obtain ⟨_, rfl⟩ := hresolves <;> rfl
  | @transfer res recv send r _ _ =>
      refine h.still hwf rfl ?_
      rw [Shared.tables, Shared.transfer_tables]
      rfl
  | _ => exact h.still hwf rfl rfl

theorem init_told (self : PeerId) (order : ByteOrder) : (init self order).Told := by
  have hidle : ∀ P, ¬ (init self order).sessions.Midst P := by
    rintro P ⟨t, d, hd, -⟩
    exact absurd hd (by simp [sessions, init])
  have hempty : ∀ conn, ¬ (init self order).sessions.Stands conn := by
    rintro conn ⟨fd, hfd⟩
    exact absurd hfd (by simp [sessions, init, Shared.tables, Shared.init, ConnectionManager.init])
  refine ⟨init_wf self order, fun t => .next (by simp [init]), ?_, ?_, ?_⟩
  · refine ⟨fun hd => absurd ⟨_, _, hd, trivial⟩ (hidle fun _ => True), fun hfd => ?_,
      fun hmidst => absurd hmidst (hidle _), fun hopening => absurd hopening (hidle _),
      fun hclosing => absurd hclosing (hidle _), fun hmidst => absurd hmidst (hidle _)⟩
    exact absurd ⟨_, hfd⟩ (hempty _)
  · refine tells_nil fun conn => ?_
    rintro (⟨hstands, -⟩ | hclosing)
    · exact hempty conn hstands
    · exact hidle _ hclosing
  · exact .nil

/-- In a run of the two threads in which they take turns, session notifications are well bracketed
at every moment. -/
theorem sessions_well_bracketed (self : PeerId) (order : ByteOrder) (inputs : List Input)
    (h : machine.EachStep TakesTurns (init self order) inputs) :
    machine.Always (fun p => WellBracketed p.shared.manager.notes) (init self order) inputs :=
  Machine.always_of_eachStep (I := Told) (fun _ hp => hp.told.bracketed)
    (fun _ _ _ hp hok hstep => hp.step hok (step_cases hstep)) inputs (init_told self order) h

/-- The manager opens a session, and the exchange goes on until the answer has come. -/
def opensTo (fd : Fd) (peer : PeerId) : List Input :=
  .call .manager (.openSession peer) :: (managerRuns 2
    ++ [.run .manager { granted with dial := ⟨true, some fd, .inProgress, true⟩ }] ++ managerRuns 2
    ++ writes fd 4 ++ writes fd HelloMsg.size ++ loopRuns 2
    ++ readsMessage fd (HelloMsg.make peer helloAnswer).serialize ++ loopRuns 4)

/-- The manager closes a session on its own thread, and reports a message of another peer is given
in the middle of it. -/
theorem sessions_well_bracketed_of_turns :
    let inputs := acceptsFrom 5 ann ++ opensTo 7 carl ++ loopRuns 2
      ++ [.call .manager (.closeSession carl .all)] ++ managerRuns 6 ++ readsMessage 5 [7]
      ++ loopRuns 3 ++ managerRuns 4
    (machine.exec (init bob .little) inputs).map (fun p => p.shared.manager.notes)
        = some [.sessionOpened ann .incoming, .sessionOpened carl .outgoing,
          .receivedMessage ann [7], .sessionLost carl .outgoing] ∧
      machine.Always (fun p => WellBracketed p.shared.manager.notes) (init bob .little) inputs :=
  ⟨by decide +kernel, sessions_well_bracketed bob .little _ (by decide +kernel)⟩

theorem not_wellBracketed_of_lost_first (conn : Conn) :
    ¬ WellBracketed [.sessionLost conn.1 conn.2, .sessionOpened conn.1 conn.2] := by
  intro h
  have halternates := h.alternates conn
  simp [Alternates, marks, Notification.sessionMark] at halternates

/-- When the reader of an outgoing connection is refused, the session is lost before it is opened.
-/
theorem refused_reader_loses_unopened_session :
    ¬ ∀ (self : PeerId) (order : ByteOrder) (inputs : List Input) (p : Process),
      machine.exec (init self order) inputs = some p → WellBracketed p.shared.manager.notes := by
  intro h
  have hrun : (machine.exec (init bob .little)
      (opensTo 5 ann ++ [.run .eventLoop { granted with ok := false }] ++ loopRuns 8)).map
        (fun p => p.shared.manager.notes)
      = some [.sessionLost ann .outgoing, .sessionOpened ann .outgoing] := by
    decide +kernel
  obtain ⟨p, hexec, hnotes⟩ := Option.map_eq_some_iff.mp hrun
  exact not_wellBracketed_of_lost_first (ann, .outgoing) (hnotes ▸ h _ _ _ p hexec)

/-- So it is when the manager closes a connection that the event loop is about to announce. -/
example :
    (machine.exec (init bob .little)
      ((acceptsFrom 5 ann).dropLast.dropLast.dropLast
        ++ [.call .manager (.closeSession ann .incoming)] ++ managerRuns 8 ++ loopRuns 2)).map
        (fun p => p.shared.manager.notes)
      = some [.sessionLost ann .incoming, .sessionOpened ann .incoming] := by
  decide +kernel

end Process

end Diplom
