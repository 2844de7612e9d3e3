import Diplom.Spec.Sections

/-!
# The code runs sections

Every section of the code goes one of the ways that `Spec/Sections.lean` lists.
-/

namespace Diplom

namespace Shared

variable {s s' : Shared} {answer : Answer} {next : List Section}

theorem received_leads (h : Handle) (res : IoResult Message) (address : Bool)
  (resolve : OnMessage) : s.Leads (.received h resolve res) (s.received h res address resolve) := by
  cases resolve with
  | incomingHello =>
      simp only [received]
      split
      · exact .helloRefused
      · split
        · exact .helloRefused
        · split
          · exact .helloRefused
          · split
            · exact .helloRefused
            · exact .helloTaken
  | outgoingAnswer peer =>
      simp only [received]
      split
      · exact .answerRefused
      · split
        · exact .answerRefused
        · split
          · exact .answerRefused
          · exact .answerTaken
  | readMessage =>
      simp only [received]
      split
      · exact .readerInactive
      · split
        · exact .readFailed
        · exact .messageRead ‹_›

theorem sent_leads (h : Handle) (res : IoResult Unit) (resolve : OnSent) :
    s.Leads (.sent h resolve res) (s.sent h res resolve) := by
  cases resolve with
  | helloAnswer peer =>
      simp only [sent]
      split
      · exact .answerUnsent
      · exact .answerSent
  | helloNotify peer =>
      simp only [sent]
      split
      · exact .notifyUnsent
      · exact .notifySent
  | queued parcel =>
      simp only [sent]
      split
      · exact .senderInactive ‹_›
      · exact .queuedSent ‹_›

theorem dial_runs {peer : PeerId} {answers : ConnectionManager.Dial}
    (h : s.dial peer answers = some (s', next)) : s.Runs (.dial peer) s' next := by
  unfold dial at h
  split at h
  · obtain ⟨rfl, rfl⟩ := Prod.mk.inj (Option.some.inj h)
    exact .leads .undialed
  · split at h
    · obtain ⟨rfl, rfl⟩ := Prod.mk.inj (Option.some.inj h)
      exact .leads .undialed
    · split at h
      · rename_i hfd
        obtain ⟨rfl, rfl⟩ := Prod.mk.inj (Option.some.inj h)
        split
        · exact @Runs.opens s peer _ [.notify (.error peer ⟨.error, .outgoing⟩)] hfd (.inr rfl)
        · exact @Runs.opens s peer _ [] hfd (.inl rfl)
      · exact absurd h (by simp)

theorem lookupFd_leads (peer : PeerId) (msg : Message) :
    s.Leads (.lookupFd peer msg)
      (match s.manager.connToFd (peer, .outgoing) with
      | some fd => [.pushBack ⟨fd, s.entryOf (peer, .outgoing)⟩ ⟨peer, msg⟩]
      | none =>
          match s.manager.connToFd (peer, .incoming) with
          | some fd => [.pushBack ⟨fd, s.entryOf (peer, .incoming)⟩ ⟨peer, msg⟩]
          | none => []) := by
  split
  · exact .found ‹_›
  · split
    · exact .found ‹_›
    · exact .noConnection

theorem pushBack_runs (h : Handle) (parcel : Parcel) :
    s.Runs (.pushBack h parcel) (s.pushBack h parcel).1 (s.pushBack h parcel).2 := by
  cases hqueue : s.manager.sendQueues h.fd with
  | none =>
      have heq : s.pushBack h parcel = (s, []) := by
        simp [pushBack, ConnectionManager.pushBack, hqueue]
      rw [heq]
      exact .leads (.noQueue hqueue)
  | some queue =>
      have halone : (if (queue ++ [parcel]).length ≤ 1 then [Section.takeFront h] else [])
          = if queue = [] then [.takeFront h] else [] := by
        cases queue <;> simp
      have heq : s.pushBack h parcel
          = (s.pushed h queue parcel, if queue = [] then [.takeFront h] else []) := by
        simp only [pushBack, ConnectionManager.pushBack, hqueue, Option.map_some, ← halone,
          decide_eq_true_eq]
        rfl
      rw [heq]
      exact .pushBack hqueue

theorem run_cases {sec : Section} (h : s.run answer sec = some (s', next)) :
    s.Runs sec s' next := by
  cases sec with
  | lockConn => exact absurd h (by simp [run])
  | unlockConn => exact absurd h (by simp [run])
  | checkSession peer =>
      obtain ⟨rfl, rfl⟩ := Prod.mk.inj (Option.some.inj h)
      split
      · exact .leads .sessionExists
      · exact .leads .dials
  | dial peer => exact dial_runs h
  | closeConnDir conn =>
      obtain ⟨rfl, rfl⟩ := Prod.mk.inj (Option.some.inj h)
      split
      · exact .leads .noSession
      · exact .leads (.closes ‹_›)
  | deregisterFd hd =>
      obtain ⟨rfl, rfl⟩ := Prod.mk.inj (Option.some.inj h)
      exact .deregisterFd
  | closeFd hd =>
      obtain ⟨rfl, rfl⟩ := Prod.mk.inj (Option.some.inj h)
      exact .closeFd
  | eraseActive hd =>
      simp only [run, Option.some.injEq] at h
      split at h
      · obtain ⟨rfl, rfl⟩ := Prod.mk.inj h
        exact .leads .notActive
      · rename_i herase
        obtain ⟨conn, hactive, heq⟩ := Option.map_eq_some_iff.mp herase
        obtain ⟨rfl, rfl⟩ := Prod.mk.inj heq
        obtain ⟨rfl, rfl⟩ := Prod.mk.inj h
        exact .eraseActive hactive
  | eraseConnToFd hd conn =>
      obtain ⟨rfl, rfl⟩ := Prod.mk.inj (Option.some.inj h)
      exact .eraseConnToFd
  | eraseQueue hd conn =>
      obtain ⟨rfl, rfl⟩ := Prod.mk.inj (Option.some.inj h)
      exact .eraseQueue
  | closeHello hd =>
      obtain ⟨rfl, rfl⟩ := Prod.mk.inj (Option.some.inj h)
      exact .closeHello
  | lookupFd peer msg =>
      obtain ⟨rfl, rfl⟩ := Prod.mk.inj (Option.some.inj h)
      exact .leads (lookupFd_leads peer msg)
  | pushBack hd parcel =>
      obtain ⟨rfl, rfl⟩ := Prod.mk.inj (Option.some.inj h)
      exact pushBack_runs hd parcel
  | takeFront hd =>
      simp only [run, Option.some.injEq, ConnectionManager.takeFront] at h
      cases hqueue : s.manager.sendQueues hd.fd with
      | none =>
          rw [hqueue] at h
          obtain ⟨rfl, rfl⟩ := Prod.mk.inj h
          exact .leads (.nothingWaits (by simp [hqueue]))
      | some queue =>
          rw [hqueue] at h
          cases queue with
          | nil =>
              obtain ⟨rfl, rfl⟩ := Prod.mk.inj h
              exact .leads (.nothingWaits (by simp [hqueue]))
          | cons parcel rest =>
              obtain ⟨rfl, rfl⟩ := Prod.mk.inj h
              exact .takeFront hqueue
  | popFront hd =>
      simp only [run, Option.some.injEq, ConnectionManager.popFront] at h
      cases hqueue : s.manager.sendQueues hd.fd with
      | none =>
          rw [hqueue] at h
          obtain ⟨rfl, rfl⟩ := Prod.mk.inj h
          exact .leads (.queueGone hqueue)
      | some queue =>
          rw [hqueue] at h
          cases queue with
          | nil =>
              obtain ⟨rfl, rfl⟩ := Prod.mk.inj h
              exact .popEmpty hqueue
          | cons front rest =>
              obtain ⟨rfl, rfl⟩ := Prod.mk.inj h
              have hmore : (if decide (rest ≠ []) = true then [Section.takeFront hd] else [])
                  = if rest = [] then [] else [.takeFront hd] := by
                cases rest <;> simp
              rw [hmore]
              exact .popFront hqueue
  | recvMessage hd resolve =>
      simp only [run, Option.some.injEq, recvMessage] at h
      split at h
      · obtain ⟨rfl, rfl⟩ := Prod.mk.inj h
        exact .recvStarted ‹_›
      · obtain ⟨rfl, rfl⟩ := Prod.mk.inj h
        exact .recvRefused
  | received hd resolve res =>
      obtain ⟨rfl, rfl⟩ := Prod.mk.inj (Option.some.inj h)
      exact .leads (received_leads hd res answer.address resolve)
  | sendMessage hd data resolve =>
      simp only [run, Option.some.injEq, sendMessage] at h
      split at h
      · obtain ⟨rfl, rfl⟩ := Prod.mk.inj h
        exact .sendStarted ‹_›
      · obtain ⟨rfl, rfl⟩ := Prod.mk.inj h
        exact .sendRefused
      · obtain ⟨rfl, rfl⟩ := Prod.mk.inj h
        exact .sendAborted ‹_›
  | sent hd resolve res =>
      obtain ⟨rfl, rfl⟩ := Prod.mk.inj (Option.some.inj h)
      exact .leads (sent_leads hd res resolve)
  | insertActive hd conn =>
      obtain ⟨rfl, rfl⟩ := Prod.mk.inj (Option.some.inj h)
      exact .insertActive
  | insertConnToFd hd conn =>
      obtain ⟨rfl, rfl⟩ := Prod.mk.inj (Option.some.inj h)
      exact .insertConnToFd
  | insertQueue hd conn =>
      obtain ⟨rfl, rfl⟩ := Prod.mk.inj (Option.some.inj h)
      exact .insertQueue
  | notify note =>
      obtain ⟨rfl, rfl⟩ := Prod.mk.inj (Option.some.inj h)
      exact .notify

end Shared

end Diplom
