import TrackingPlan.Schema.Script
/-!
# Script — what a script asks, how it fails and how it ends

`Ends` says with what results a script can end, and what was asked on the way.  `Spec` is the weakest precondition of
a script: all it asks, fails by and ends with keeps to three conditions; it goes through a script step by step
(`spec_bind`), so that each part of a parse has one statement.
-/
namespace TrackingPlan
namespace Script

variable {α β : Type}

/-- A question of a script; one for a definition comes with its answer. -/
inductive Request where
  | reference (ref : String) (place : Location)
  | definition (key : String) (place : Location) (answer : Node)

/-- **A script can end with a result** after these requests. -/
inductive Ends : Script α → List Request → α → Prop where
  | done (a : α) : Ends (.done a) [] a
  | note {r next rs a} (h : Ends next rs a) : Ends (.note r next) rs a
  | reference {ref place next rs a} (h : Ends next rs a) :
    Ends (.reference ref place next) (.reference ref place :: rs) a
  | definition {key place next n rs a} (h : Ends (next n) rs a) :
    Ends (.definition key place next) (.definition key place n :: rs) a

/-- **What a script keeps to**: its requests satisfy `A`, its faults `F`, and its endings `Q`. -/
def Spec (A : Request → Prop) (F : Fault → Prop) : Script α → (List Request → α → Prop) → Prop
  | .done a, Q => Q [] a
  | .fail f, _ => F f
  | .note _ next, Q => Spec A F next Q
  | .reference ref place next, Q =>
    A (.reference ref place) ∧ Spec A F next (fun rs => Q (.reference ref place :: rs))
  | .definition key place next, Q =>
    ∀ n, A (.definition key place n) ∧ Spec A F (next n) (fun rs => Q (.definition key place n :: rs))

variable {A : Request → Prop} {F : Fault → Prop}

theorem pure_eq (a : α) : (pure a : Script α) = .done a := rfl

theorem spec_bind : ∀ (s : Script α) (f : α → Script β) (Q : List Request → β → Prop),
    Spec A F (s >>= f) Q ↔ Spec A F s (fun rs a => Spec A F (f a) (fun rs' => Q (rs ++ rs')))
  | .done _, _, _ => Iff.rfl
  | .fail _, _, _ => Iff.rfl
  | .note _ next, f, Q => spec_bind next f Q
  | .reference ref place next, f, Q =>
    and_congr_right fun _ => spec_bind next f (fun rs => Q (.reference ref place :: rs))
  | .definition key place next, f, Q =>
    forall_congr' fun n => and_congr_right fun _ => spec_bind (next n) f (fun rs => Q (.definition key place n :: rs))

theorem Spec.mono {A' : Request → Prop} {F' : Fault → Prop} (hA : ∀ q, A q → A' q) (hF : ∀ f, F f → F' f)
    {s : Script α} {Q Q' : List Request → α → Prop} (h : Spec A F s Q) (hQ : ∀ rs a, Q rs a → Q' rs a) :
    Spec A' F' s Q' := by
  induction s generalizing Q Q' with
  | done a => exact hQ _ _ h
  | fail f => exact hF f h
  | note _ _ ih => exact ih (Q := Q) h hQ
  | reference ref place _ ih => exact ⟨hA _ h.1, ih h.2 (fun _ _ hq => hQ _ _ hq)⟩
  | definition key place _ ih => exact fun n => ⟨hA _ (h n).1, ih n (h n).2 (fun _ _ hq => hQ _ _ hq)⟩

theorem Spec.imp {s : Script α} {Q Q' : List Request → α → Prop} (h : Spec A F s Q) (hQ : ∀ rs a, Q rs a → Q' rs a) :
    Spec A F s Q' :=
  h.mono (fun _ hq => hq) (fun _ hf => hf) hQ

theorem Spec.bind {s : Script α} {f : α → Script β} {Q : List Request → α → Prop} {Q' : List Request → β → Prop}
    (h : Spec A F s Q) (hf : ∀ rs a, Q rs a → Spec A F (f a) (fun rs' => Q' (rs ++ rs'))) : Spec A F (s >>= f) Q' :=
  (spec_bind s f Q').2 (h.imp hf)

theorem spec_ofExcept {e : Except Fault α} {Q : List Request → α → Prop} (hF : ∀ f, e = .error f → F f)
    (hQ : ∀ a, e = .ok a → Q [] a) : Spec A F (ofExcept e) Q := by
  cases e with
  | ok a => exact hQ a rfl
  | error f => exact hF f rfl

/-- A condition on requests that further ones do not end. -/
def Grows (P : List Request → Prop) : Prop := ∀ rs rs', P rs → (∀ q ∈ rs, q ∈ rs') → P rs'

theorem Grows.all {ι : Sort _} {P : ι → List Request → Prop} (h : ∀ i, Grows (P i)) : Grows (fun rs => ∀ i, P i rs) :=
  fun rs rs' hp hrs i => h i rs rs' (hp i) hrs

theorem Grows.imp {c : Prop} {P : List Request → Prop} (h : Grows P) : Grows (fun rs => c → P rs) :=
  fun rs rs' hp hrs hc => h rs rs' (hp hc) hrs

/-- **One more result in front of a list**: what holds of each, by the requests for it, holds of all by all requests.
-/
theorem Spec.cons {γ : Type} {s : Script α} {ss : Script (List γ)} (g : α → γ) {P Ps : List Request → Prop}
    {R : List Request → γ → Prop} (hP : Grows P) (hPs : Grows Ps) (hR : ∀ b, Grows (R · b))
    (h : Spec A F s (fun rs a => P rs ∧ R rs (g a))) (hs : Spec A F ss (fun rs bs => Ps rs ∧ ∀ b ∈ bs, R rs b)) :
    Spec A F (s >>= fun a => ss >>= fun bs => pure (g a :: bs)) (fun rs bs => (P rs ∧ Ps rs) ∧ ∀ b ∈ bs, R rs b) := by
  refine h.bind ?_
  rintro rs a ⟨hp, hr⟩
  refine hs.bind ?_
  rintro rs' bs ⟨hps, hrs⟩
  have hl : ∀ q ∈ rs, q ∈ rs ++ (rs' ++ []) := fun q hq => List.mem_append_left _ hq
  have hr' : ∀ q ∈ rs', q ∈ rs ++ (rs' ++ []) := fun q hq => by simp [hq]
  exact ⟨⟨hP _ _ hp hl, hPs _ _ hps hr'⟩,
    List.forall_mem_cons.2 ⟨hR _ _ _ hr hl, fun b hb => hR _ _ _ (hrs b hb) hr'⟩⟩

theorem Ends.of_spec {s : Script α} {rs : List Request} {a : α} (h : Ends s rs a) :
    ∀ {Q : List Request → α → Prop}, Spec A F s Q → Q rs a ∧ ∀ q ∈ rs, A q := by
  induction h with
  | done a => exact fun hs => ⟨hs, fun _ hq => by cases hq⟩
  | note _ ih => exact fun hs => ih hs
  | reference _ ih =>
    intro Q hs
    obtain ⟨hQ, hA⟩ := ih hs.2
    exact ⟨hQ, List.forall_mem_cons.2 ⟨hs.1, hA⟩⟩
  | definition _ ih =>
    intro Q hs
    obtain ⟨hQ, hA⟩ := ih (hs _).2
    exact ⟨hQ, List.forall_mem_cons.2 ⟨(hs _).1, hA⟩⟩

end Script
end TrackingPlan
