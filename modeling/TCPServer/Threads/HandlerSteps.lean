/-
  The steps of the handler, taken alone.

  `handlerStep_effect` says all that a step of the handler can do: it goes on, nearer to its
  end; it draws a number that is in use; it draws a new one; it sends the reply.

  `HandlerPc.Ready s ID c₀ h`: the handler is at `h`, works on `c₀` alone, and `c₀` is at `ID`
  as long as the handler will look there again. From such a state the handler never fails, and
  is ready again (`ready_step`); if the next draw gives a new number it ends (`handler_finishes`).

  Uninterrupted the steps are `onIncomingMsg1` (`handler_run`).
-/
import TCPServer.Threads.System

namespace TCPServer

open Runs

/-! ## What the handler has in hand -/

/-- The index the handler will look up again. -/
@[simp] def HandlerPc.index : HandlerPc → Option CInt
  | .parse msg => (decodeID msg).toOption
  | .lookup ID => some ID
  | .generateLookup ID _ => some ID
  | .draw ID _ _ => some ID
  | .write ID _ _ => some ID
  | .sleep ID _ => some ID
  | .sortLookup ID _ => some ID
  | .sort ID _ _ => some ID
  | .sortAgain ID _ => some ID
  | .sortWrite ID _ _ => some ID
  | .replyLookup ID _ => some ID
  | .reply _ _ => none
  | .returned => none

/-- The clients that lookups gave and the handler will still use. -/
@[simp] def HandlerPc.pointers : HandlerPc → List ClientPtr
  | .generateLookup _ client => [client]
  | .draw _ client generateClient => [client, generateClient]
  | .write _ client _ => [client]
  | .sort _ _ client => [client]
  | .sortWrite _ _ client => [client]
  | .reply _ client => [client]
  | _ => []

/-- The handler has its number. -/
@[simp] def HandlerPc.drawn : HandlerPc → Bool
  | .parse _ => false
  | .lookup _ => false
  | .generateLookup _ _ => false
  | .draw _ _ _ => false
  | _ => true

/-- The number a handler works on; it is `n` if the handler has yet to draw it. -/
@[simp] def HandlerPc.value (n : ℤ) : HandlerPc → ℤ
  | .write _ _ value => value
  | .sleep _ value => value
  | .sortLookup _ value => value
  | .sort _ value _ => value
  | .sortAgain _ value => value
  | .sortWrite _ value _ => value
  | .replyLookup _ value => value
  | .reply value _ => value
  | _ => n

/-- The steps that are left if the next draw gives a new number. -/
def HandlerPc.rank : HandlerPc → ℕ
  | .parse _ => 12
  | .lookup _ => 11
  | .generateLookup _ _ => 10
  | .draw _ _ _ => 9
  | .write _ _ _ => 8
  | .sleep _ _ => 7
  | .sortLookup _ _ => 6
  | .sort _ _ _ => 5
  | .sortAgain _ _ => 4
  | .sortWrite _ _ _ => 3
  | .replyLookup _ _ => 2
  | .reply _ _ => 1
  | .returned => 0

/-! ## What a step does -/

/-- All that a step of the handler can do. -/
inductive HandlerPc.Effect (s : Server) (h : HandlerPc) (rand : ℕ) : HandlerPc → Server → Prop
  | goesOn {h' : HandlerPc} {s' : Server} {o : ClientPtr} {l : List ℤ} :
      h'.rank < h.rank → h' ≠ .returned → h'.drawn = h.drawn → (∀ n, h'.value n = h.value n) →
      s.Relists s' o l → s'.numbers = s.numbers → s'.sent = s.sent → h.Effect s rand h' s'
  | repeats {ID : CInt} {client g : ClientPtr} :
      h = .draw ID client g → candidate ID rand ∈ s.numbers → h.Effect s rand h s
  | draws {s' : Server} {ID : CInt} {client g : ClientPtr} {l : List ℤ} :
      h = .draw ID client g → s.Relists s' g l →
      s'.numbers = s.numbers ++ [candidate ID rand] → s'.sent = s.sent →
      h.Effect s rand (.write ID client (candidate ID rand)) s'
  | replies {value : ℤ} {client : ClientPtr} {c : Client} :
      h = .reply value client → s.object client = .ok c →
      h.Effect s rand .returned { s with sent := s.sent ++ [(c.sockfd, to_string value)] }

/-- A step that leaves the server alone goes on. -/
theorem HandlerPc.Effect.moves {s : Server} (hs : s.Separate) {h h' : HandlerPc} (rand : ℕ)
    (hrank : h'.rank < h.rank) (hret : h' ≠ .returned) (hdrawn : h'.drawn = h.drawn)
    (hvalue : ∀ n, h'.value n = h.value n) : h.Effect s rand h' s :=
  .goesOn hrank hret hdrawn hvalue (hs.relists_self 0) rfl rfl

theorem writeList_ok {s s' : Server} {head : Option NodePtr} {clientFileName : Bytes}
    (h : s.writeList head clientFileName = .ok s') : ∃ files, s' = { s with files := files } := by
  obtain ⟨p, -, h1⟩ := bind_ok_iff.mp h
  obtain ⟨text, -, h2⟩ := bind_ok_iff.mp h1
  cases h2
  exact ⟨_, rfl⟩

theorem handlerStep_effect {s s' : Server} (hs : s.Separate) {h h' : HandlerPc} {rand : ℕ}
    {r : SendResult} (hret : h ≠ .returned) (hstep : h.step s rand r = .ok (h', s')) :
    h.Effect s rand h' s' := by
  cases h with
  | parse msg =>
    obtain ⟨ID, -, hok⟩ := bind_ok_iff.mp hstep
    cases hok
    exact .moves hs rand (show 11 < 12 by decide) (by simp) rfl fun _ => rfl
  | lookup ID =>
    obtain ⟨client, -, hok⟩ := bind_ok_iff.mp hstep
    cases hok
    exact .moves hs rand (show 10 < 11 by decide) (by simp) rfl fun _ => rfl
  | generateLookup ID client =>
    obtain ⟨g, -, hok⟩ := bind_ok_iff.mp hstep
    cases hok
    exact .moves hs rand (show 9 < 10 by decide) (by simp) rfl fun _ => rfl
  | draw ID client g =>
    obtain ⟨⟨n, s1⟩, hdraw, hok⟩ := bind_ok_iff.mp hstep
    unfold Server.draw at hdraw
    dsimp only at hdraw
    split at hdraw
    · rename_i hused
      cases hdraw
      cases hok
      refine .repeats rfl ?_
      by_contra hnew
      exact hused (List.count_eq_zero.mpr hnew)
    · obtain ⟨s2, happ, hdraw⟩ := bind_ok_iff.mp hdraw
      cases hdraw
      cases hok
      obtain ⟨c, hc⟩ := appendNode_object happ
      obtain ⟨s3, hok3, hrel, hnumbers, -, hsent⟩ := appendNode_spec hs hc (candidate ID rand)
      rw [happ] at hok3
      cases hok3
      refine .draws rfl (hrel.withData _ _ _) ?_ hsent
      show s2.numbers ++ _ = _
      rw [hnumbers]
  | write ID client value =>
    obtain ⟨c, -, h1⟩ := bind_ok_iff.mp hstep
    obtain ⟨s1, hw, hok⟩ := bind_ok_iff.mp h1
    cases hok
    obtain ⟨files, rfl⟩ := writeList_ok hw
    exact .goesOn (show 7 < 8 by decide) (by simp) rfl (fun _ => rfl)
      ((hs.relists_self 0).withData s.numbers files s.sent) rfl rfl
  | sleep ID value =>
    cases hstep
    exact .moves hs rand (show 6 < 7 by decide) (by simp) rfl fun _ => rfl
  | sortLookup ID value =>
    obtain ⟨client, -, hok⟩ := bind_ok_iff.mp hstep
    cases hok
    exact .moves hs rand (show 5 < 6 by decide) (by simp) rfl fun _ => rfl
  | sort ID value client =>
    obtain ⟨sorted, hsort, hok⟩ := bind_ok_iff.mp hstep
    obtain ⟨c, hc, -⟩ := bind_ok_iff.mp hsort
    by_cases hlen : (s.listOf client).length < 2
    · rw [sortNodes_short hs hc hlen] at hsort
      cases hsort
      cases hok
      exact .moves hs rand (show 2 < 5 by decide) (by simp) rfl fun _ => rfl
    · obtain ⟨s1, l, hok1, hrel, -, -, hnumbers, -, hsent⟩ := sortNodes_spec hs hc (by omega)
      rw [hok1] at hsort
      cases hsort
      cases hok
      exact .goesOn (show 4 < 5 by decide) (by simp) rfl (fun _ => rfl) hrel hnumbers hsent
  | sortAgain ID value =>
    obtain ⟨client, -, hok⟩ := bind_ok_iff.mp hstep
    cases hok
    exact .moves hs rand (show 3 < 4 by decide) (by simp) rfl fun _ => rfl
  | sortWrite ID value client =>
    obtain ⟨s1, hsw, hok⟩ := bind_ok_iff.mp hstep
    obtain ⟨c, -, hw⟩ := bind_ok_iff.mp hsw
    cases hok
    obtain ⟨files, rfl⟩ := writeList_ok hw
    exact .goesOn (show 2 < 3 by decide) (by simp) rfl (fun _ => rfl)
      ((hs.relists_self 0).withData s.numbers files s.sent) rfl rfl
  | replyLookup ID value =>
    obtain ⟨client, -, hok⟩ := bind_ok_iff.mp hstep
    cases hok
    exact .moves hs rand (show 1 < 2 by decide) (by simp) rfl fun _ => rfl
  | reply value client =>
    obtain ⟨⟨ret, s1⟩, hsend, hok⟩ := bind_ok_iff.mp hstep
    obtain ⟨c, hc, -⟩ := bind_ok_iff.mp hsend
    obtain ⟨ret', hspec⟩ := sendToClient_spec hc (to_string value) r
    rw [hspec] at hsend
    cases hsend
    cases hok
    exact .replies rfl hc
  | returned => exact absurd rfl hret

/-- A step of the handler that does not fail changes one list at most, and no client. -/
theorem handlerStep_relists {s s' : Server} {h h' : HandlerPc} {rand : ℕ} {r : SendResult}
    (hs : s.Separate) (hret : h ≠ .returned) (hstep : h.step s rand r = .ok (h', s')) :
    ∃ o l, s.Relists s' o l := by
  cases handlerStep_effect hs hret hstep with
  | goesOn _ _ _ _ hrel _ _ => exact ⟨_, _, hrel⟩
  | repeats _ _ => exact ⟨0, _, hs.relists_self 0⟩
  | draws _ hrel _ _ => exact ⟨_, _, hrel⟩
  | replies _ _ => exact ⟨0, _, (hs.relists_self 0).withData _ _ _⟩

/-! ## A handler that is ready -/

/-- What the handler has in hand is `ID` and the client `c₀`. -/
structure HandlerPc.On (ID : CInt) (c₀ : ClientPtr) (h : HandlerPc) : Prop where
  decodes : ∀ msg, h = .parse msg → decodeID msg = .ok ID
  index : ∀ ID', h.index = some ID' → ID' = ID
  pointers : ∀ p ∈ h.pointers, p = c₀

/-- The handler can go on with `c₀` alone. -/
structure HandlerPc.Ready (s : Server) (ID : CInt) (c₀ : ClientPtr) (h : HandlerPc) : Prop where
  on : h.On ID c₀
  slot : h.index ≠ none → s.at ID = .ok c₀
  alive : h ≠ .returned → s.Alive c₀
  list : h.drawn = true → h ≠ .returned → s.listOf c₀ ≠ []

theorem HandlerPc.On.slot_or_pointer {ID : CInt} {c₀ : ClientPtr} {h : HandlerPc}
    (hon : h.On ID c₀) (hret : h ≠ .returned) : h.index = some ID ∨ c₀ ∈ h.pointers := by
  cases hidx : h.index with
  | some ID' => exact .inl (congrArg some (hon.index ID' hidx))
  | none =>
    -- Without an index, the handler is about to reply.
    cases h with
    | parse msg =>
      rw [HandlerPc.index, hon.decodes msg rfl] at hidx
      cases hidx
    | reply value client =>
      right
      rw [← hon.pointers client (by simp [HandlerPc.pointers])]
      simp [HandlerPc.pointers]
    | returned => exact absurd rfl hret
    | _ => cases hidx

/-- A handler that has yet to draw will look up its index again. -/
theorem HandlerPc.On.index_of_not_drawn {ID : CInt} {c₀ : ClientPtr} {h : HandlerPc}
    (hon : h.On ID c₀) (hd : h.drawn = false) : h.index = some ID := by
  cases h with
  | parse msg =>
    rw [HandlerPc.index, hon.decodes msg rfl]
    rfl
  | lookup ID' => rw [← hon.index ID' rfl, HandlerPc.index]
  | generateLookup ID' client => rw [← hon.index ID' rfl, HandlerPc.index]
  | draw ID' client generateClient => rw [← hon.index ID' rfl, HandlerPc.index]
  | _ => cases hd

theorem ready_returned (s : Server) (ID : CInt) (c₀ : ClientPtr) :
    HandlerPc.returned.Ready s ID c₀ where
  on := ⟨by simp, by simp, by simp⟩
  slot h := absurd rfl h
  alive h := absurd rfl h
  list _ h := absurd rfl h

/-- The handler goes on to `h'` while the server changes the list of `c₀` at most. -/
theorem HandlerPc.Ready.next {s s' : Server} {ID : CInt} {c₀ : ClientPtr} {h h' : HandlerPc}
    {l : List ℤ} (hr : h.Ready s ID c₀) (hret : h ≠ .returned) (hidx : h.index = some ID)
    (hrel : s.Relists s' c₀ l) (hon : h'.On ID c₀) (hlist : h'.drawn = true → l ≠ []) :
    h'.Ready s' ID c₀ where
  on := hon
  slot _ := by rw [hrel.same.at]; exact hr.slot (by rw [hidx]; simp)
  alive _ := hrel.same.alive (hr.alive hret)
  list hd _ := by rw [hrel.listOf]; exact hlist hd

/-- Writing the list of a client changes no list. -/
theorem writeList_relists {s : Server} (hs : s.Separate) {o : ClientPtr} {c : Client}
    (hc : s.object o = .ok c) (hne : s.listOf o ≠ []) (f : Bytes) :
    ∃ s', s.writeList c.head f = .ok s' ∧ s.Relists s' o (s.listOf o) :=
  ⟨_, writeList_spec hs hc hne f, (hs.relists_self o).withData s.numbers
    (Function.update s.files f (some (joined (s.listOf o)))) s.sent⟩

/-- A handler that is ready takes its step, whatever `rand()` and `::send` return, and is ready
    again; only the list of `c₀` may have changed. -/
theorem ready_step {s : Server} (hs : s.Separate) {ID : CInt} {c₀ : ClientPtr} {h : HandlerPc}
    (hr : h.Ready s ID c₀) (hret : h ≠ .returned) (rand : ℕ) (r : SendResult) :
    ∃ h' s' l, h.step s rand r = .ok (h', s') ∧ h'.Ready s' ID c₀ ∧ s.Relists s' c₀ l := by
  have hself := hs.relists_self c₀
  obtain ⟨c, hc⟩ := hr.alive hret
  cases h with
  | parse msg =>
    have hmsg := hr.on.decodes msg rfl
    have hidx : (HandlerPc.parse msg).index = some ID := by rw [HandlerPc.index, hmsg]; rfl
    refine ⟨.lookup ID, s, _, ?_,
      hr.next hret hidx hself ⟨by simp, by simp, by simp⟩ (by simp), hself⟩
    rw [HandlerPc.step, hmsg]
    rfl
  | lookup ID' =>
    obtain rfl := hr.on.index ID' rfl
    have hat := hr.slot (by simp [HandlerPc.index])
    refine ⟨.generateLookup ID' c₀, s, _, ?_,
      hr.next hret rfl hself ⟨by simp, by simp, by simp⟩ (by simp), hself⟩
    rw [HandlerPc.step, hat]
    rfl
  | generateLookup ID' client =>
    obtain rfl := hr.on.index ID' rfl
    obtain rfl := hr.on.pointers client (by simp [HandlerPc.pointers])
    have hat := hr.slot (by simp [HandlerPc.index])
    refine ⟨.draw ID' client client, s, _, ?_,
      hr.next hret rfl hself ⟨by simp, by simp, by simp⟩ (by simp), hself⟩
    rw [HandlerPc.step, hat]
    rfl
  | draw ID' client g =>
    obtain rfl := hr.on.index ID' rfl
    obtain rfl := hr.on.pointers client (by simp [HandlerPc.pointers])
    obtain rfl := hr.on.pointers g (by simp [HandlerPc.pointers])
    by_cases hnew : candidate ID' rand ∈ s.numbers
    · have hdraw : s.draw ID' g rand = .ok (none, s) := by
        rw [Server.draw, if_pos (by rw [ne_eq, List.count_eq_zero]; exact not_not.mpr hnew)]
        rfl
      refine ⟨.draw ID' g g, s, _, ?_, hr, hself⟩
      rw [HandlerPc.step, hdraw]
      rfl
    · obtain ⟨s1, happ, hrel, -⟩ := appendNode_spec hs hc (candidate ID' rand)
      have hdraw : s.draw ID' g rand = .ok (some (candidate ID' rand),
          { s1 with numbers := s1.numbers ++ [candidate ID' rand] }) := by
        rw [Server.draw, if_neg (by rw [not_not]; exact List.count_eq_zero.mpr hnew), happ]
        rfl
      have hrel' := hrel.withData (s1.numbers ++ [candidate ID' rand]) s1.files s1.sent
      refine ⟨.write ID' g (candidate ID' rand), _, _, ?_,
        hr.next hret rfl hrel' ⟨by simp, by simp, by simp⟩ fun _ => ?_, hrel'⟩
      · rw [HandlerPc.step, hdraw]
        rfl
      · exact List.append_ne_nil_of_right_ne_nil _ (List.cons_ne_nil _ _)
  | write ID' client value =>
    obtain rfl := hr.on.index ID' rfl
    obtain rfl := hr.on.pointers client (by simp [HandlerPc.pointers])
    have hne := hr.list rfl hret
    obtain ⟨s1, hw, hrel⟩ := writeList_relists hs hc hne (clientFileName ID')
    refine ⟨.sleep ID' value, s1, _, ?_,
      hr.next hret rfl hrel ⟨by simp, by simp, by simp⟩ fun _ => hne, hrel⟩
    rw [HandlerPc.step, hc, ok_bind, hw]
    rfl
  | sleep ID' value =>
    obtain rfl := hr.on.index ID' rfl
    have hne := hr.list rfl hret
    exact ⟨.sortLookup ID' value, s, _, rfl,
      hr.next hret rfl hself ⟨by simp, by simp, by simp⟩ fun _ => hne, hself⟩
  | sortLookup ID' value =>
    obtain rfl := hr.on.index ID' rfl
    have hat := hr.slot (by simp [HandlerPc.index])
    have hne := hr.list rfl hret
    refine ⟨.sort ID' value c₀, s, _, ?_,
      hr.next hret rfl hself ⟨by simp, by simp, by simp⟩ fun _ => hne, hself⟩
    rw [HandlerPc.step, hat]
    rfl
  | sort ID' value client =>
    obtain rfl := hr.on.index ID' rfl
    obtain rfl := hr.on.pointers client (by simp [HandlerPc.pointers])
    have hne := hr.list rfl hret
    by_cases hlen : (s.listOf client).length < 2
    · refine ⟨.replyLookup ID' value, s, _, ?_,
        hr.next hret rfl hself ⟨by simp, by simp, by simp⟩ fun _ => hne, hself⟩
      rw [HandlerPc.step, sortNodes_short hs hc hlen]
      rfl
    · obtain ⟨s1, l, hok, hrel, hperm, -⟩ := sortNodes_spec hs hc (by omega)
      refine ⟨.sortAgain ID' value, s1, l, ?_,
        hr.next hret rfl hrel ⟨by simp, by simp, by simp⟩ fun _ hl => ?_, hrel⟩
      · rw [HandlerPc.step, hok]
        rfl
      · rw [hl] at hperm
        exact hne (List.nil_perm.mp hperm)
  | sortAgain ID' value =>
    obtain rfl := hr.on.index ID' rfl
    have hat := hr.slot (by simp [HandlerPc.index])
    have hne := hr.list rfl hret
    refine ⟨.sortWrite ID' value c₀, s, _, ?_,
      hr.next hret rfl hself ⟨by simp, by simp, by simp⟩ fun _ => hne, hself⟩
    rw [HandlerPc.step, hat]
    rfl
  | sortWrite ID' value client =>
    obtain rfl := hr.on.index ID' rfl
    obtain rfl := hr.on.pointers client (by simp [HandlerPc.pointers])
    have hne := hr.list rfl hret
    obtain ⟨s1, hw, hrel⟩ := writeList_relists hs hc hne (clientFileName ID')
    refine ⟨.replyLookup ID' value, s1, _, ?_,
      hr.next hret rfl hrel ⟨by simp, by simp, by simp⟩ fun _ => hne, hrel⟩
    rw [HandlerPc.step, Server.writeSorted, hc, ok_bind, hw]
    rfl
  | replyLookup ID' value =>
    obtain rfl := hr.on.index ID' rfl
    have hat := hr.slot (by simp [HandlerPc.index])
    have hne := hr.list rfl hret
    refine ⟨.reply value c₀, s, _, ?_,
      hr.next hret rfl hself ⟨by simp, by simp, by simp⟩ fun _ => hne, hself⟩
    rw [HandlerPc.step, hat]
    rfl
  | reply value client =>
    obtain rfl := hr.on.pointers client (by simp [HandlerPc.pointers])
    obtain ⟨ret, hsend⟩ := sendToClient_spec hc (to_string value) r
    have hrel := hself.withData s.numbers s.files (s.sent ++ [(c.sockfd, to_string value)])
    refine ⟨.returned, _, _, ?_, ready_returned _ ID _, hrel⟩
    rw [HandlerPc.step, hsend]
    rfl
  | returned => exact absurd rfl hret

/-! ## An uninterrupted run of the handler -/

/-- The handler steps, one after another; a label is what `rand()` and `::send` return. -/
def HandlerStep (x : HandlerPc × Server) (l : ℕ × SendResult) (x' : HandlerPc × Server) : Prop :=
  x.1 ≠ .returned ∧ x.1.step x.2 l.1 l.2 = .ok x'

theorem handler_step {h h' : HandlerPc} {s s' : Server} (rand : ℕ) (r : SendResult)
    (hne : h ≠ .returned) (hstep : h.step s rand r = .ok (h', s')) :
    HandlerStep (h, s) (rand, r) (h', s') :=
  ⟨hne, hstep⟩

/-- The rounds of the loop of `generateNumber`. -/
theorem handler_run_draw {ID : CInt} (client : ClientPtr) {g : ClientPtr} {rands : List ℕ}
    {s s' : Server} {value : ℤ} (r : SendResult) (h : s.generateLoop ID g rands = .ok (value, s')) :
    ∃ ls, Run HandlerStep (.draw ID client g, s) ls (.write ID client value, s') := by
  induction rands generalizing s with
  | nil => cases h
  | cons rand rands ih =>
    obtain ⟨⟨number, s1⟩, hdraw, hrest⟩ := bind_ok_iff.mp h
    cases number with
    | some n =>
      cases hrest
      refine ⟨[(rand, r)], .single (handler_step rand r (by simp) ?_)⟩
      rw [HandlerPc.step, hdraw]
      rfl
    | none =>
      obtain ⟨ls, hrun⟩ := ih hrest
      refine ⟨(rand, r) :: ls, .cons (handler_step rand r (by simp) ?_) hrun⟩
      rw [HandlerPc.step, hdraw]
      rfl

/-- `sortList` is the steps from its lookup to the one after it. -/
theorem handler_run_sort {ID : CInt} (value : ℤ) {s s' : Server} (r : SendResult)
    (h : s.sortList ID (clientFileName ID) = .ok s') :
    ∃ ls, Run HandlerStep (.sortLookup ID value, s) ls (.replyLookup ID value, s') := by
  obtain ⟨client, hat, h1⟩ := bind_ok_iff.mp h
  obtain ⟨sorted, hsort, h2⟩ := bind_ok_iff.mp h1
  have hlookup : HandlerStep (.sortLookup ID value, s) (0, r) (.sort ID value client, s) := by
    refine handler_step 0 r (by simp) ?_
    rw [HandlerPc.step, hat]
    rfl
  cases sorted with
  | none =>
    cases h2
    refine ⟨[(0, r), (0, r)], .cons hlookup (.single (handler_step 0 r (by simp) ?_))⟩
    rw [HandlerPc.step, hsort]
    rfl
  | some s1 =>
    obtain ⟨again, hagain, h3⟩ := bind_ok_iff.mp h2
    refine ⟨[(0, r), (0, r), (0, r), (0, r)], .cons hlookup (.cons (m := (.sortAgain ID value, s1))
      (handler_step 0 r (by simp) ?_) (.cons (m := (.sortWrite ID value again, s1))
      (handler_step 0 r (by simp) ?_) (.single (handler_step 0 r (by simp) ?_))))⟩
    · rw [HandlerPc.step, hsort]
      rfl
    · rw [HandlerPc.step, hagain]
      rfl
    · rw [HandlerPc.step, h3]
      rfl

/-- The steps up to the first draw. -/
theorem handler_run_start {s : Server} {msg : Bytes} {ID : CInt} {client : ClientPtr}
    (r : SendResult) (hmsg : decodeID msg = .ok ID) (hat : s.at ID = .ok client) :
    Run HandlerStep (.parse msg, s) [(0, r), (0, r), (0, r)] (.draw ID client client, s) := by
  refine .cons (m := (.lookup ID, s)) (handler_step 0 r (by simp) ?_)
    (.cons (m := (.generateLookup ID client, s)) (handler_step 0 r (by simp) ?_)
    (.single (handler_step 0 r (by simp) ?_)))
  · rw [HandlerPc.step, hmsg]
    rfl
  · rw [HandlerPc.step, hat]
    rfl
  · rw [HandlerPc.step, hat]
    rfl

/-- When `onIncomingMsg1` returns, its steps lead from its start to its end. -/
theorem handler_run {s s' : Server} {msg : Bytes} {rands : List ℕ} {r : SendResult}
    (h : s.onIncomingMsg1 msg rands r = .ok s') :
    ∃ ls, Run HandlerStep (.parse msg, s) ls (.returned, s') := by
  obtain ⟨ID, hmsg, h1⟩ := bind_ok_iff.mp h
  obtain ⟨client, hat, h2⟩ := bind_ok_iff.mp h1
  obtain ⟨⟨value, s1⟩, hgen, h3⟩ := bind_ok_iff.mp h2
  obtain ⟨g, hg, hloop⟩ := bind_ok_iff.mp hgen
  cases hat.symm.trans hg
  obtain ⟨c, hc, h4⟩ := bind_ok_iff.mp h3
  obtain ⟨s2, hwrite, h5⟩ := bind_ok_iff.mp h4
  obtain ⟨s3, hsort, h6⟩ := bind_ok_iff.mp h5
  obtain ⟨replyClient, hreply, h7⟩ := bind_ok_iff.mp h6
  obtain ⟨⟨ret, s4⟩, hsend, h8⟩ := bind_ok_iff.mp h7
  cases h8
  have hmid : Run HandlerStep (.write ID client value, s1) [(0, r), (0, r)]
      (.sortLookup ID value, s2) := by
    refine .cons (m := (.sleep ID value, s2)) (handler_step 0 r (by simp) ?_)
      (.single (handler_step 0 r (by simp) rfl))
    rw [HandlerPc.step, hc, ok_bind, hwrite]
    rfl
  have hend : Run HandlerStep (.replyLookup ID value, s3) [(0, r), (0, r)] (.returned, s') := by
    refine .cons (m := (.reply value replyClient, s3)) (handler_step 0 r (by simp) ?_)
      (.single (handler_step 0 r (by simp) ?_))
    · rw [HandlerPc.step, hreply]
      rfl
    · rw [HandlerPc.step, hsend]
      rfl
  obtain ⟨ls1, hdraws⟩ := handler_run_draw client r hloop
  obtain ⟨ls2, hsorts⟩ := handler_run_sort value r hsort
  exact ⟨_, (handler_run_start r hmsg hat).append
    (hdraws.append (hmid.append (hsorts.append hend)))⟩

/-! ## The end of the handler -/

/-- A number that a draw for `ID` can still give. -/
structure Server.Free (s : Server) (ID : CInt) (n : ℤ) : Prop where
  zero_le : 0 ≤ n
  le_99 : n ≤ 99
  parity : n % 2 = ID.val % 2
  new : n ∉ s.numbers

theorem Server.Free.of_parity {s : Server} {ID ID' : CInt} {n : ℤ} (h : s.Free ID n)
    (hpar : ID'.val % 2 = ID.val % 2) : s.Free ID' n :=
  ⟨h.zero_le, h.le_99, h.parity.trans hpar.symm, h.new⟩

/-- From `h` the handler has come to its end with `n` as the number drawn, if it had to draw. -/
structure Server.Finished (s s' : Server) (h : HandlerPc) (c₀ : ClientPtr) (n : ℤ) : Prop where
  relists : ∃ l, s.Relists s' c₀ l
  numbers : s'.numbers = if h.drawn then s.numbers else s.numbers ++ [n]
  sent : ∀ c, s.object c₀ = .ok c → s'.sent = s.sent ++ [(c.sockfd, to_string (h.value n))]

/-- A step in front that sends nothing. -/
theorem Server.Finished.after {s s1 s' : Server} {h h' : HandlerPc} {c₀ : ClientPtr} {n : ℤ}
    {l : List ℤ} (hfin : s1.Finished s' h' c₀ n) (hrel : s.Relists s1 c₀ l)
    (hsent : s1.sent = s.sent) (hvalue : h'.value n = h.value n)
    (hnumbers : (if h'.drawn then s1.numbers else s1.numbers ++ [n]) =
      if h.drawn then s.numbers else s.numbers ++ [n]) : s.Finished s' h c₀ n where
  relists := by
    obtain ⟨l', hrel'⟩ := hfin.relists
    exact ⟨l', hrel.trans hrel'⟩
  numbers := hfin.numbers.trans hnumbers
  sent c hc := by
    obtain ⟨c1, hc1, hfix⟩ := hrel.same.object hc
    rw [hfin.sent c1 hc1, hsent, hvalue, Client.sockfd_of_fixed hfix]

/-- A handler that is ready comes to its end when the next draw gives a free number. -/
theorem handler_finishes {s : Server} (hs : s.Separate) {ID : CInt} {c₀ : ClientPtr}
    {h : HandlerPc} (hr : h.Ready s ID c₀) (hret : h ≠ .returned) {n : ℤ}
    (hn : h.drawn = false → s.Free ID n) (r : SendResult) :
    ∃ ls s', Run HandlerStep (h, s) ls (.returned, s') ∧ s.Finished s' h c₀ n := by
  induction hk : h.rank using Nat.strong_induction_on generalizing h s with
  | h k ih =>
    obtain ⟨h', s1, l, hok, hr', hrel⟩ := ready_step hs hr hret (n.toNat / 2) r
    have hstep := handler_step (n.toNat / 2) r hret hok
    cases handlerStep_effect hs hret hok with
    | goesOn hrank hret' hdrawn hvalue _ hnumbers hsent =>
      have hn' : h'.drawn = false → s1.Free ID n := fun hd => by
        obtain ⟨h0, h99, hpar, hnew⟩ := hn (hdrawn ▸ hd)
        exact ⟨h0, h99, hpar, by rw [hnumbers]; exact hnew⟩
      obtain ⟨ls, s', hrun, hfin⟩ := ih h'.rank (hk ▸ hrank) hrel.separate hr' hret' hn' rfl
      exact ⟨_, s', .cons hstep hrun, hfin.after hrel hsent (hvalue n) (by rw [hdrawn, hnumbers])⟩
    | repeats hpc hused =>
      -- the draw gives `n`, which is free
      subst hpc
      obtain ⟨h0, h99, hpar, hnew⟩ := hn rfl
      rw [hr.on.index _ rfl, candidate_surjective h0 h99 hpar] at hused
      exact absurd hused hnew
    | draws hpc _ hnumbers hsent =>
      subst hpc
      obtain ⟨h0, h99, hpar, hnew⟩ := hn rfl
      obtain rfl := hr.on.index _ rfl
      rw [candidate_surjective h0 h99 hpar] at hr' hnumbers hstep
      obtain ⟨ls, s', hrun, hfin⟩ := ih _ (by rw [← hk]; exact Nat.lt_succ_self 8) hrel.separate
        hr' (by simp) (fun hd => by cases hd) rfl
      exact ⟨_, s', .cons hstep hrun, hfin.after hrel hsent rfl hnumbers⟩
    | replies hpc hc =>
      subst hpc
      obtain rfl := hr.on.pointers _ (List.mem_singleton.mpr rfl)
      refine ⟨_, _, .single hstep, ⟨l, hrel⟩, rfl, fun c' hc' => ?_⟩
      rw [hc] at hc'
      cases hc'
      rfl

end TCPServer
