import Konnekt.Snapshots.Uploads

/-!
# Uploads that are left open

An assembly closes the upload it knows of, whatever fails. It leaves one open if the
answer to a request that created it is lost, because the retry creates another; and it
fails although it replaced the object if the answer to the completing request is.
-/

namespace Konnekt.Snapshots

open Go

/-! ## The network -/

/-- The first attempt that the service performs, if there is one, is answered. -/
def heard : List Fate → Bool → Bool
  | [], _ => true
  | fate :: fates, cancelled =>
    cancelled ||
      match fate.reach with
      | .unreached false => true
      | .unreached true | .unavailable => fate.cancels || heard fates false
      | .reached back => back == .answered

/-- Whether an attempt is answered in the end, if each can be repeated; and if so whether the
context is cancelled then. -/
def exchange : List Fate → Bool → Option Bool
  | [], _ => none
  | fate :: fates, cancelled =>
    if cancelled then none
    else match fate.reach with
      | .unreached false | .reached .cut => none
      | .reached .answered => some fate.cancels
      | .unreached true | .unavailable | .reached .dropped | .reached .gateway =>
        if fate.cancels then none else exchange fates false

/-- Whether the copy of a part is answered with an ETag, and whether the context is cancelled
then. -/
def copyThrough (etagOf : List UInt8 → String) (objects : GoMap (List UInt8)) (net : Attempts)
    (partNumber : Nat) (step : DHCopyStep) : Option Bool :=
  if badPart partNumber step then none
  else match step.copied objects with
    | none => none
    | some data => if etagOf data = "" then none else exchange (List.ofFn net) false

/-- Whether all copies are, from a step on. -/
def copiesThrough (etagOf : List UInt8 → String) (objects : GoMap (List UInt8))
    (net : Nat → Attempts) : Nat → List DHCopyStep → Bool → Option Bool
  | _, [], cancelled => some cancelled
  | i, step :: steps, cancelled =>
    if cancelled then none
    else match copyThrough etagOf objects (net i) (i + 1) step with
      | none => none
      | some cancelled => copiesThrough etagOf objects net (i + 1) steps cancelled

section

variable {etagOf : List UInt8 → String} {request : UploadRequest} {fates : List Fate}
  {cancelled : Bool} {b : Bucket} {key : String} {id : Nat}

/-- What the first of some attempts comes to: the call ends or goes on, with the request performed
or not. -/
inductive Tried (etagOf : List UInt8 → String) (request : UploadRequest) (fate : Fate)
    (fates : List Fate) (cancelled : Bool) (b : Bucket) : Prop
  | stopped (e : CallError) (c : Bool)
      (hrun : roundTrip etagOf request (fate :: fates) cancelled b = (.error e, c, b))
      (hheard : heard (fate :: fates) cancelled = true)
      (hexchange : exchange (fate :: fates) cancelled = none)
  | passed
      (hrun : roundTrip etagOf request (fate :: fates) cancelled b =
        roundTrip etagOf request fates false b)
      (hheard : heard (fate :: fates) cancelled = heard fates false)
      (hexchange : exchange (fate :: fates) cancelled = exchange fates false)
  | answered
      (hrun : roundTrip etagOf request (fate :: fates) cancelled b =
        (.ok ((serve etagOf request b).1, true), fate.cancels, (serve etagOf request b).2))
      (hheard : heard (fate :: fates) cancelled = true)
      (hexchange : exchange (fate :: fates) cancelled = some fate.cancels)
  | lost (result : Except CallError (UploadAnswer × Bool)) (c : Bool)
      (hrun : roundTrip etagOf request (fate :: fates) cancelled b =
        (result, c, (serve etagOf request b).2))
      (hresult : ∀ answer, result ≠ .ok (answer, true))
      (hheard : heard (fate :: fates) cancelled = false)
      (hexchange : exchange (fate :: fates) cancelled = none)
  | repeated
      (hrun : roundTrip etagOf request (fate :: fates) cancelled b =
        roundTrip etagOf request fates false (serve etagOf request b).2)
      (hheard : heard (fate :: fates) cancelled = false)
      (hexchange : exchange (fate :: fates) cancelled = exchange fates false)

theorem tried (etagOf : List UInt8 → String) (request : UploadRequest) (fate : Fate)
    (fates : List Fate) (cancelled : Bool) (b : Bucket) :
    Tried etagOf request fate fates cancelled b := by
  obtain ⟨reach, cancels⟩ := fate
  cases cancelled with
  | true => exact .stopped .cancelled true rfl rfl rfl
  | false =>
    cases reach with
    | unreached retryable =>
      cases retryable with
      | false => exact .stopped .transport cancels rfl rfl rfl
      | true =>
        cases cancels with
        | true => cases fates with
          | nil => exact .stopped .transport true rfl rfl rfl
          | cons _ _ => exact .stopped .cancelled true rfl rfl rfl
        | false => cases fates with
          | nil => exact .stopped .transport false rfl rfl rfl
          | cons _ _ => exact .passed rfl rfl rfl
    | unavailable =>
      cases cancels with
      | true => cases fates with
        | nil => exact .stopped (.status 503) true rfl rfl rfl
        | cons _ _ => exact .stopped .cancelled true rfl rfl rfl
      | false => cases fates with
        | nil => exact .stopped (.status 503) false rfl rfl rfl
        | cons _ _ => exact .passed rfl rfl rfl
    | reached back =>
      cases back with
      | answered => exact .answered rfl rfl rfl
      | cut => exact .lost _ cancels rfl (by simp) rfl rfl
      | dropped =>
        cases cancels with
        | true => cases fates with
          | nil => exact .lost _ true rfl nofun rfl rfl
          | cons _ _ => exact .lost _ true rfl nofun rfl rfl
        | false => cases fates with
          | nil => exact .lost _ false rfl nofun rfl rfl
          | cons _ _ => exact .repeated rfl rfl rfl
      | gateway =>
        cases cancels with
        | true => cases fates with
          | nil => exact .lost _ true rfl nofun rfl rfl
          | cons _ _ => exact .lost _ true rfl nofun rfl rfl
        | false => cases fates with
          | nil => exact .lost _ false rfl nofun rfl rfl
          | cons _ _ => exact .repeated rfl rfl rfl

/-- An attempt that reaches the service is performed first. -/
theorem roundTrip_reached (etagOf : List UInt8 → String) (request : UploadRequest) (back : Back)
    (cancels : Bool) (fates : List Fate) (b : Bucket) :
    (roundTrip etagOf request (⟨.reached back, cancels⟩ :: fates) false b).2.2 =
        (serve etagOf request b).2 ∨
      roundTrip etagOf request (⟨.reached back, cancels⟩ :: fates) false b =
        roundTrip etagOf request fates false (serve etagOf request b).2 := by
  cases back <;> cases cancels <;> cases fates
  all_goals first | exact .inl rfl | exact .inr rfl

/-- What every performed request keeps, the attempts at it keep. -/
theorem roundTrip_invariant {P : Bucket → Prop} (hb : P b)
    (hserve : ∀ b, P b → P (serve etagOf request b).2) :
    P (roundTrip etagOf request fates cancelled b).2.2 := by
  induction fates generalizing cancelled b with
  | nil => exact hb
  | cons fate fates ih =>
    cases tried etagOf request fate fates cancelled b with
    | stopped e c hrun _ _ =>
      rw [hrun]
      exact hb
    | passed hrun _ _ =>
      rw [hrun]
      exact ih hb
    | answered hrun _ _ =>
      rw [hrun]
      exact hserve b hb
    | lost result c hrun _ _ _ =>
      rw [hrun]
      exact hserve b hb
    | repeated hrun _ _ =>
      rw [hrun]
      exact ih (hserve b hb)

/-- Attempts that are heard perform the request once, and answer it, or not at all. -/
theorem roundTrip_of_heard (hheard : heard fates cancelled = true) :
    (∃ c, exchange fates cancelled = some c ∧
      roundTrip etagOf request fates cancelled b =
        (.ok ((serve etagOf request b).1, true), c, (serve etagOf request b).2)) ∨
    exchange fates cancelled = none ∧ ∃ e c,
      roundTrip etagOf request fates cancelled b = (.error e, c, b) := by
  induction fates generalizing cancelled b with
  | nil => exact .inr ⟨rfl, _, _, rfl⟩
  | cons fate fates ih =>
    cases tried etagOf request fate fates cancelled b with
    | stopped e c hrun _ hexchange => exact .inr ⟨hexchange, e, c, hrun⟩
    | passed hrun hsame hexchange =>
      rw [hrun, hexchange]
      exact ih (hsame ▸ hheard)
    | answered hrun _ hexchange => exact .inl ⟨_, hexchange, hrun⟩
    | lost result c hrun _ hnot _ => cases hnot.symm.trans hheard
    | repeated hrun hnot _ => cases hnot.symm.trans hheard

/-- Attempts at a request that answers the same, and changes nothing more, when it is repeated. -/
theorem roundTrip_of_repeatable
    (hagain : serve etagOf request (serve etagOf request b).2 = serve etagOf request b) :
    (∃ c, exchange fates cancelled = some c ∧
      roundTrip etagOf request fates cancelled b =
        (.ok ((serve etagOf request b).1, true), c, (serve etagOf request b).2)) ∨
    exchange fates cancelled = none ∧
      ∀ answer, (roundTrip etagOf request fates cancelled b).1 ≠ .ok (answer, true) := by
  induction fates generalizing cancelled b with
  | nil => exact .inr ⟨rfl, nofun⟩
  | cons fate fates ih =>
    cases tried etagOf request fate fates cancelled b with
    | stopped e c hrun _ hexchange =>
      rw [hrun]
      exact .inr ⟨hexchange, nofun⟩
    | passed hrun _ hexchange =>
      rw [hrun, hexchange]
      exact ih hagain
    | answered hrun _ hexchange => exact .inl ⟨_, hexchange, hrun⟩
    | lost result c hrun hresult _ hexchange =>
      rw [hrun]
      exact .inr ⟨hexchange, hresult⟩
    | repeated hrun _ hexchange =>
      have hrest := @ih false (serve etagOf request b).2 (by rw [hagain, hagain])
      rw [hagain] at hrest
      rw [hrun, hexchange]
      exact hrest

/-- The first attempt that is performed is not answered: whatever is answered later comes from the
bucket that it leaves. -/
theorem roundTrip_of_not_heard (hheard : heard fates cancelled = false) :
    (∃ fates', roundTrip etagOf request fates cancelled b =
      roundTrip etagOf request fates' false (serve etagOf request b).2) ∨
    ∃ result c, roundTrip etagOf request fates cancelled b =
      (result, c, (serve etagOf request b).2) ∧ ∀ answer, result ≠ .ok (answer, true) := by
  induction fates generalizing cancelled with
  | nil => cases hheard
  | cons fate fates ih =>
    cases tried etagOf request fate fates cancelled b with
    | stopped _ _ _ hyes _ => cases hyes.symm.trans hheard
    | passed hrun hsame _ =>
      rw [hrun]
      exact ih (hsame ▸ hheard)
    | answered _ hyes _ => cases hyes.symm.trans hheard
    | lost result c hrun hresult _ _ => exact .inr ⟨result, c, hrun, hresult⟩
    | repeated hrun _ _ => exact .inl ⟨fates, hrun⟩

/-- An answer is that of the service, in a state that the performed requests keep. -/
theorem roundTrip_answer {P : Bucket → Prop} (hb : P b)
    (hserve : ∀ b, P b → P (serve etagOf request b).2) {answer : UploadAnswer}
    (h : (roundTrip etagOf request fates cancelled b).1 = .ok (answer, true)) :
    ∃ b', P b' ∧ answer = (serve etagOf request b').1 := by
  induction fates generalizing cancelled b with
  | nil => cases h
  | cons fate fates ih =>
    cases tried etagOf request fate fates cancelled b with
    | stopped _ _ hrun _ _ =>
      rw [hrun] at h
      cases h
    | passed hrun _ _ =>
      rw [hrun] at h
      exact ih hb h
    | answered hrun _ _ =>
      rw [hrun] at h
      exact ⟨b, hb, (Prod.mk.inj (Except.ok.inj h)).1.symm⟩
    | lost result c hrun hresult _ _ =>
      rw [hrun] at h
      exact absurd h (hresult answer)
    | repeated hrun _ _ =>
      rw [hrun] at h
      exact ih (hserve b hb) h

theorem decoded_of_not_whole {result : Except CallError (UploadAnswer × Bool)}
    (h : ∀ answer, result ≠ .ok (answer, true)) : ∃ e, decoded result = .error e := by
  rcases result with e | ⟨answer, whole⟩
  · exact ⟨e, rfl⟩
  · cases whole with
    | true => exact absurd rfl (h answer)
    | false => cases answer <;> exact ⟨_, rfl⟩

theorem decoded_eq_ok {result : Except CallError (UploadAnswer × Bool)} {answer : UploadAnswer}
    (h : decoded result = .ok answer) : result = .ok (answer, true) := by
  rcases result with e | ⟨answer', whole⟩
  · cases h
  · cases answer' <;> cases whole <;> cases h <;> rfl

/-! ## Creating -/

/-- The bucket with one more upload. -/
def Bucket.opened (b : Bucket) (key : String) : Bucket :=
  { b with uploads := b.uploads ++ [some ⟨key, ∅⟩] }

theorem create_of_heard {net : Attempts} (hheard : heard (List.ofFn net) cancelled = true) :
    (∃ c, exchange (List.ofFn net) cancelled = some c ∧
      createMultipartUpload etagOf key net cancelled b =
        (.ok b.uploads.length, c, b.opened key)) ∨
    exchange (List.ofFn net) cancelled = none ∧ ∃ e c,
      createMultipartUpload etagOf key net cancelled b = (.error e, c, b) := by
  unfold createMultipartUpload
  rcases roundTrip_of_heard hheard with ⟨c, hexchange, hrun⟩ | ⟨hexchange, e, c, hrun⟩
  · rw [hrun]
    exact .inl ⟨c, hexchange, rfl⟩
  · rw [hrun]
    exact .inr ⟨hexchange, e, c, rfl⟩

/-- An upload was created whose id is not the one that the client goes on with. -/
theorem create_of_not_heard {net : Attempts} (hheard : heard (List.ofFn net) cancelled = false) :
    (createMultipartUpload etagOf key net cancelled b).2.2.uploads[b.uploads.length]? =
        some (some ⟨key, ∅⟩) ∧
      (createMultipartUpload etagOf key net cancelled b).1 ≠ .ok b.uploads.length := by
  have hopened : (b.opened key).uploads[b.uploads.length]? = some (some ⟨key, ∅⟩) := by
    simp [Bucket.opened]
  have hlength : b.uploads.length < (b.opened key).uploads.length := by
    simp [Bucket.opened]
  let P (b' : Bucket) : Prop := ∃ more, b'.uploads = (b.opened key).uploads ++ more
  have hgrows (b' : Bucket) (h : P b') : P (serve etagOf (.create key) b').2 := by
    obtain ⟨more, heq⟩ := h
    refine ⟨more ++ [some ⟨key, ∅⟩], ?_⟩
    change b'.uploads ++ [some ⟨key, ∅⟩] = _
    rw [heq, List.append_assoc]
  have hfirst {b' : Bucket} (h : P b') :
      b'.uploads[b.uploads.length]? = some (some ⟨key, ∅⟩) := by
    obtain ⟨more, heq⟩ := h
    rw [heq, List.getElem?_append_left hlength]
    exact hopened
  have hstart : P (b.opened key) := ⟨[], (List.append_nil _).symm⟩
  have hafter : P (roundTrip etagOf (.create key) (List.ofFn net) cancelled b).2.2 ∧
      ∀ id, (roundTrip etagOf (.create key) (List.ofFn net) cancelled b).1 =
        .ok (.created id, true) → id ≠ b.uploads.length := by
    rcases roundTrip_of_not_heard hheard with ⟨fates', hrun⟩ | ⟨result, c, hrun, hresult⟩
    · rw [hrun]
      refine ⟨roundTrip_invariant hstart hgrows, fun id hanswer => ?_⟩
      obtain ⟨b', ⟨more, heq⟩, hid⟩ := roundTrip_answer hstart hgrows hanswer
      obtain rfl := UploadAnswer.created.inj hid
      rw [heq, List.length_append]
      omega
    · rw [hrun]
      exact ⟨hstart, fun id hanswer => absurd hanswer (hresult _)⟩
  unfold createMultipartUpload
  generalize roundTrip etagOf (.create key) (List.ofFn net) cancelled b = run at hafter
  obtain ⟨result, c, b'⟩ := run
  obtain ⟨hP, hids⟩ := hafter
  dsimp only at hP hids ⊢
  split
  · next id hok =>
    refine ⟨hfirst hP, fun heq => ?_⟩
    exact hids id (decoded_eq_ok hok) (Except.ok.inj heq)
  · exact ⟨hfirst hP, nofun⟩
  · exact ⟨hfirst hP, nofun⟩

/-! ## One upload -/

/-- A bucket differs in an upload only. -/
structure OneUpload (id : Nat) (b b' : Bucket) : Prop where
  objects : b'.objects = b.objects
  written : b'.written = b.written
  others : ∀ j, j ≠ id → b'.uploads[j]? = b.uploads[j]?

theorem OneUpload.refl (id : Nat) (b : Bucket) : OneUpload id b b := ⟨rfl, rfl, fun _ _ => rfl⟩

theorem OneUpload.trans {b₁ b₂ b₃ : Bucket} (h₁ : OneUpload id b₁ b₂) (h₂ : OneUpload id b₂ b₃) :
    OneUpload id b₁ b₃ where
  objects := h₂.objects.trans h₁.objects
  written := h₂.written.trans h₁.written
  others j hj := (h₂.others j hj).trans (h₁.others j hj)

/-- The upload of this id is the key's, as long as it is open. -/
def Ours (key : String) (id : Nat) (b : Bucket) : Prop :=
  b.uploads[id]? = some none ∨ ∃ u, b.uploads[id]? = some (some u) ∧ u.key = key

theorem upload_eq_some {u : Upload} :
    b.upload key id = some u ↔ b.uploads[id]? = some (some u) ∧ u.key = key := by
  unfold Bucket.upload
  constructor
  · intro h
    split at h
    · next u' hu =>
      split_ifs at h with hkey
      obtain rfl := Option.some.inj h
      exact ⟨hu, hkey⟩
    · cases h
  · rintro ⟨hu, hkey⟩
    rw [hu]
    exact if_pos hkey

/-- One upload is replaced or closed. -/
def Bucket.setUpload (b : Bucket) (id : Nat) (x : Option Upload) : Bucket :=
  { b with uploads := b.uploads.set id x }

theorem oneUpload_set (x : Option Upload) : OneUpload id b (b.setUpload id x) where
  objects := rfl
  written := rfl
  others _ hj := List.getElem?_set_ne hj.symm

theorem getElem?_setUpload {u : Option Upload} (h : b.uploads[id]? = some u) (x : Option Upload) :
    (b.setUpload id x).uploads[id]? = some x := by
  obtain ⟨hlt, -⟩ := List.getElem?_eq_some_iff.1 h
  exact List.getElem?_set_self hlt

theorem serve_copyPart {n : Nat} {step : DHCopyStep} {u : Upload} {data : List UInt8}
    (hu : b.upload key id = some u) (hdata : step.copied b.objects = some data) :
    serve etagOf (.copyPart key id n step) b = (.copied (etagOf data),
      b.setUpload id (some { u with parts := u.parts.insert n (etagOf data, data) })) := by
  rw [serve, hu]
  dsimp only
  rw [hdata]
  rfl

theorem serve_copyPart_missing {n : Nat} {step : DHCopyStep}
    (h : b.upload key id = none ∨ step.copied b.objects = none) :
    serve etagOf (.copyPart key id n step) b = (.refused 404, b) := by
  rw [serve]
  cases hu : b.upload key id with
  | none => rfl
  | some u =>
    dsimp only
    rw [h.resolve_left (by rw [hu]; exact nofun)]

theorem serve_abort (hours : Ours key id b) :
    OneUpload id b (serve etagOf (.abort key id) b).2 ∧
      (serve etagOf (.abort key id) b).2.uploads[id]? = some none := by
  rw [serve]
  rcases hours with hnone | ⟨u, hu, hkey⟩
  · have hgone : b.upload key id = none := by
      rw [Bucket.upload, hnone]
    rw [hgone]
    exact ⟨.refl id b, hnone⟩
  · rw [upload_eq_some.2 ⟨hu, hkey⟩]
    exact ⟨oneUpload_set none, getElem?_setUpload hu none⟩

/-- Aborting closes the upload, when the requests reach the service. -/
theorem abort_closes {net : Attempts} (hreach : ∀ i, ∃ back, (net i).reach = .reached back)
    (hours : Ours key id b) :
    OneUpload id b (abortMultipartUpload etagOf key id net b).2 ∧
      (abortMultipartUpload etagOf key id net b).2.uploads[id]? = some none := by
  have hsnd : (abortMultipartUpload etagOf key id net b).2 =
      (roundTrip etagOf (.abort key id) (List.ofFn net) false b).2.2 := by
    unfold abortMultipartUpload
    rcases roundTrip etagOf (.abort key id) (List.ofFn net) false b with
      ⟨_ | ⟨_ | _ | _ | _, _⟩, _, _⟩ <;> rfl
  have hclosed : ∀ b', (OneUpload id b b' ∧ b'.uploads[id]? = some none) →
      OneUpload id b (serve etagOf (.abort key id) b').2 ∧
        (serve etagOf (.abort key id) b').2.uploads[id]? = some none := by
    rintro b' ⟨hone, hnone⟩
    have hstep := @serve_abort etagOf b' key id (.inl hnone)
    exact ⟨hone.trans hstep.1, hstep.2⟩
  obtain ⟨back, hfirst⟩ := hreach 0
  rw [hsnd, List.ofFn_succ]
  generalize hfate : net 0 = fate at hfirst
  obtain ⟨reach, cancels⟩ := fate
  obtain rfl : reach = .reached back := hfirst
  have hserved := @serve_abort etagOf b key id hours
  rcases roundTrip_reached etagOf (.abort key id) back cancels (List.ofFn fun i => net i.succ) b with
    hlast | hrun
  · rw [hlast]
    exact hserved
  · rw [hrun]
    exact roundTrip_invariant hserved hclosed

/-! ## Copying -/

theorem serve_copyPart_again (etagOf : List UInt8 → String) (key : String) (id n : Nat)
    (step : DHCopyStep) (b : Bucket) :
    serve etagOf (.copyPart key id n step) (serve etagOf (.copyPart key id n step) b).2 =
      serve etagOf (.copyPart key id n step) b := by
  by_cases hmissing : b.upload key id = none ∨ step.copied b.objects = none
  · rw [serve_copyPart_missing hmissing]
    exact serve_copyPart_missing hmissing
  · obtain ⟨hu, hdata⟩ := not_or.1 hmissing
    obtain ⟨u, hu⟩ := Option.ne_none_iff_exists'.1 hu
    obtain ⟨data, hdata⟩ := Option.ne_none_iff_exists'.1 hdata
    obtain ⟨hget, hkey⟩ := upload_eq_some.1 hu
    rw [serve_copyPart hu hdata]
    have hnext := upload_eq_some.2 ⟨getElem?_setUpload hget
      (some { u with parts := u.parts.insert n (etagOf data, data) }), hkey⟩
    rw [serve_copyPart hnext hdata, Bucket.setUpload, Bucket.setUpload, List.set_set,
      AList.insert_insert]

theorem serve_copyPart_ours {n : Nat} {step : DHCopyStep} (hours : Ours key id b) :
    OneUpload id b (serve etagOf (.copyPart key id n step) b).2 ∧
      Ours key id (serve etagOf (.copyPart key id n step) b).2 := by
  by_cases hmissing : b.upload key id = none ∨ step.copied b.objects = none
  · rw [serve_copyPart_missing hmissing]
    exact ⟨.refl id b, hours⟩
  · obtain ⟨hu, hdata⟩ := not_or.1 hmissing
    obtain ⟨u, hu⟩ := Option.ne_none_iff_exists'.1 hu
    obtain ⟨data, hdata⟩ := Option.ne_none_iff_exists'.1 hdata
    obtain ⟨hget, hkey⟩ := upload_eq_some.1 hu
    rw [serve_copyPart hu hdata]
    exact ⟨oneUpload_set _, .inr ⟨_, getElem?_setUpload hget _, hkey⟩⟩

theorem copy_of_through {n : Nat} {step : DHCopyStep} {net : Attempts} {u : Upload} {c : Bool}
    (hu : b.upload key id = some u) (h : copyThrough etagOf b.objects net n step = some c) :
    ∃ data, uploadPartCopy etagOf key id n step net false b = (.ok (etagOf data), c,
      b.setUpload id (some { u with parts := u.parts.insert n (etagOf data, data) })) := by
  unfold copyThrough at h
  split_ifs at h with hbad
  split at h
  · cases h
  · next data hdata =>
    split_ifs at h with hetag
    refine ⟨data, ?_⟩
    rw [uploadPartCopy, if_neg hbad]
    rcases @roundTrip_of_repeatable etagOf _ (List.ofFn net) false b
      (serve_copyPart_again etagOf key id n step b) with ⟨c', hexchange, hrun⟩ | ⟨hexchange, -⟩
    · obtain rfl := Option.some.inj (hexchange.symm.trans h)
      rw [hrun, serve_copyPart hu hdata]
      dsimp only [decoded]
      rw [if_neg hetag]
    · cases hexchange.symm.trans h

theorem copy_of_not_through {n : Nat} {step : DHCopyStep} {net : Attempts} {u : Upload}
    (hu : b.upload key id = some u) (h : copyThrough etagOf b.objects net n step = none) :
    ∃ e c b', uploadPartCopy etagOf key id n step net false b = (.error e, c, b') ∧
      OneUpload id b b' ∧ Ours key id b' := by
  have hours : Ours key id b := .inr ⟨u, upload_eq_some.1 hu⟩
  unfold copyThrough at h
  rw [uploadPartCopy]
  split_ifs at h with hbad
  · rw [if_pos hbad]
    exact ⟨_, _, b, rfl, .refl id b, hours⟩
  · rw [if_neg hbad]
    have hkept : ∀ b', OneUpload id b b' ∧ Ours key id b' →
        OneUpload id b (serve etagOf (.copyPart key id n step) b').2 ∧
          Ours key id (serve etagOf (.copyPart key id n step) b').2 := by
      rintro b' ⟨hone, hours'⟩
      have hstep := @serve_copyPart_ours etagOf b' key id n step hours'
      exact ⟨hone.trans hstep.1, hstep.2⟩
    have hends := @roundTrip_invariant etagOf (.copyPart key id n step) (List.ofFn net) false b
      (fun b' => OneUpload id b b' ∧ Ours key id b') ⟨.refl id b, hours⟩ hkept
    have hanswer : ∀ answer,
        decoded (roundTrip etagOf (.copyPart key id n step) (List.ofFn net) false b).1 =
          .ok answer → answer = .copied "" := by
      intro answer hok
      rcases @roundTrip_of_repeatable etagOf _ (List.ofFn net) false b
        (serve_copyPart_again etagOf key id n step b) with ⟨c, hexchange, hrun⟩ | ⟨-, hlost⟩
      · rw [hrun] at hok
        cases hdata : step.copied b.objects with
        | none =>
          rw [serve_copyPart_missing (.inr hdata)] at hok
          cases hok
        | some data =>
          rw [hdata, hexchange] at h
          dsimp only at h
          have hetag : etagOf data = "" := by
            by_contra hne
            rw [if_neg hne] at h
            cases h
          rw [serve_copyPart hu hdata, hetag] at hok
          exact (Except.ok.inj hok).symm
      · obtain ⟨e, herror⟩ := decoded_of_not_whole hlost
        cases herror.symm.trans hok
    generalize roundTrip etagOf (.copyPart key id n step) (List.ofFn net) false b = run
      at hends hanswer
    obtain ⟨result, c, b'⟩ := run
    dsimp only at hends hanswer ⊢
    split
    · next etag hok =>
      obtain rfl := UploadAnswer.copied.inj (hanswer _ hok)
      exact ⟨_, c, b', rfl, hends⟩
    · exact ⟨_, c, b', rfl, hends⟩
    · exact ⟨_, c, b', rfl, hends⟩

/-! ## The parts of an upload -/

theorem listed_insert {u : Upload} {x : String × List UInt8} {n : Nat} {etags : List String}
    {i : Nat} (h : i + etags.length ≤ n) :
    ({ u with parts := u.parts.insert n x } : Upload).listed i etags = u.listed i etags := by
  induction etags generalizing i with
  | nil => rfl
  | cons etag etags ih =>
    rw [List.length_cons] at h
    rw [Upload.listed, Upload.listed, AList.lookup_insert_ne (by omega), ih (by omega)]

theorem listed_append {u : Upload} {etag : String} {data : List UInt8} {etags : List String}
    {i : Nat} {datas : List (List UInt8)} (h : u.listed i etags = some datas)
    (hnext : u.parts.lookup (i + etags.length) = some (etag, data)) :
    u.listed i (etags ++ [etag]) = some (datas ++ [data]) := by
  induction etags generalizing i datas with
  | nil =>
    obtain rfl := Option.some.inj h
    rw [List.length_nil, add_zero] at hnext
    rw [List.nil_append, Upload.listed, hnext]
    dsimp only
    rw [if_pos rfl]
    rfl
  | cons etag' etags ih =>
    rw [List.length_cons, ← add_assoc, add_right_comm] at hnext
    rw [Upload.listed] at h
    rw [List.cons_append, Upload.listed]
    cases hpart : u.parts.lookup i with
    | none =>
      rw [hpart] at h
      cases h
    | some part =>
      obtain ⟨etag'', data'⟩ := part
      rw [hpart] at h
      dsimp only at h ⊢
      split_ifs at h with hetag
      rw [if_pos hetag]
      obtain ⟨rest, hrest, rfl⟩ := Option.map_eq_some_iff.1 h
      rw [ih hrest hnext]
      rfl

theorem copySteps_of_through {net : Nat → Attempts} {steps : List DHCopyStep} {i : Nat} {c : Bool}
    {etags : List String} {u : Upload} {datas : List (List UInt8)}
    (hu : b.upload key id = some u) (hlisted : u.listed 1 etags = some datas)
    (hlength : etags.length = i)
    (h : copiesThrough etagOf b.objects net i steps cancelled = some c) :
    ∃ etags' b' u' datas', copySteps etagOf key id net i etags steps cancelled b =
        (.ok etags', c, b') ∧ etags'.length = i + steps.length ∧ OneUpload id b b' ∧
      b'.upload key id = some u' ∧ u'.listed 1 etags' = some datas' := by
  induction steps generalizing i etags u datas b cancelled with
  | nil =>
    obtain rfl := Option.some.inj h
    exact ⟨etags, b, u, datas, rfl, hlength, .refl id b, hu, hlisted⟩
  | cons step steps ih =>
    unfold copiesThrough at h
    split_ifs at h with hcancelled
    split at h
    · cases h
    · next c' hcopy =>
      obtain ⟨data, hcopied⟩ := copy_of_through hu hcopy
      obtain ⟨hget, hkey⟩ := upload_eq_some.1 hu
      have hone := @oneUpload_set b id
        (some { u with parts := u.parts.insert (i + 1) (etagOf data, data) })
      have hnext := upload_eq_some.2 ⟨getElem?_setUpload hget
        (some { u with parts := u.parts.insert (i + 1) (etagOf data, data) }), hkey⟩
      have hlisted' : ({ u with parts := u.parts.insert (i + 1) (etagOf data, data) } :
          Upload).listed 1 (etags ++ [etagOf data]) = some (datas ++ [data]) := by
        apply listed_append
        · rw [listed_insert (by omega), hlisted]
        · rw [hlength, add_comm 1 i, AList.lookup_insert]
      obtain ⟨etags', b', u', datas', hrun, hlength', hone', hu', hlisted''⟩ :=
        ih hnext hlisted' (by rw [List.length_append, hlength]; rfl) h
      refine ⟨etags', b', u', datas', ?_, ?_, hone.trans hone', hu', hlisted''⟩
      · rw [copySteps, if_neg hcancelled, hcopied]
        exact hrun
      · rw [hlength', List.length_cons]
        omega

theorem copySteps_of_not_through {net : Nat → Attempts} {steps : List DHCopyStep} {i : Nat}
    {etags : List String} {u : Upload} (hu : b.upload key id = some u)
    (h : copiesThrough etagOf b.objects net i steps cancelled = none) :
    ∃ e c b', copySteps etagOf key id net i etags steps cancelled b = (.error e, c, b') ∧
      OneUpload id b b' ∧ Ours key id b' := by
  induction steps generalizing i etags u b cancelled with
  | nil => cases h
  | cons step steps ih =>
    rw [copySteps]
    unfold copiesThrough at h
    split_ifs at h with hcancelled
    · rw [if_pos hcancelled]
      exact ⟨_, _, b, rfl, .refl id b, .inr ⟨u, upload_eq_some.1 hu⟩⟩
    · rw [if_neg hcancelled]
      split at h
      · next hcopy =>
        obtain ⟨e, c, b', hrun, hone, hours⟩ := copy_of_not_through hu hcopy
        rw [hrun]
        exact ⟨e, c, b', rfl, hone, hours⟩
      · next c' hcopy =>
        obtain ⟨data, hcopied⟩ := copy_of_through hu hcopy
        obtain ⟨hget, hkey⟩ := upload_eq_some.1 hu
        have hone := @oneUpload_set b id
          (some { u with parts := u.parts.insert (i + 1) (etagOf data, data) })
        have hnext := upload_eq_some.2 ⟨getElem?_setUpload hget
          (some { u with parts := u.parts.insert (i + 1) (etagOf data, data) }), hkey⟩
        obtain ⟨e, c, b', hrun, hone', hours⟩ := @ih c' _ _ (etags ++ [etagOf data]) _ hnext h
        rw [hcopied]
        exact ⟨e, c, b', hrun, hone.trans hone', hours⟩

/-! ## Completing -/

/-- The bucket with the object of an upload that was completed. -/
def Bucket.completed (b : Bucket) (key : String) (id : Nat) (datas : List (List UInt8)) :
    Bucket :=
  ⟨b.objects.insert key datas.flatten, key :: b.written, b.uploads.set id none⟩

variable {etags : List String} {u : Upload} {datas : List (List UInt8)}

theorem serve_complete (hu : b.upload key id = some u) (hlisted : u.listed 1 etags = some datas) :
    serve etagOf (.complete key id etags) b = (.done, b.completed key id datas) := by
  rw [serve, hu]
  dsimp only
  rw [hlisted]
  rfl

theorem serve_complete_gone (hnone : b.uploads[id]? = some none) :
    serve etagOf (.complete key id etags) b = (.refused 404, b) := by
  have hgone : b.upload key id = none := by
    rw [Bucket.upload, hnone]
  rw [serve, hgone]

theorem complete_of_heard {net : Attempts} (hcount : ¬(etags.length = 0 ∨
      s3MaxMultipartParts < etags.length)) (hu : b.upload key id = some u)
    (hlisted : u.listed 1 etags = some datas) (hheard : heard (List.ofFn net) cancelled = true) :
    (∃ c, completeMultipartUpload etagOf key id etags net cancelled b =
      (.ok (), c, b.completed key id datas)) ∨
    ∃ e c, completeMultipartUpload etagOf key id etags net cancelled b = (.error e, c, b) := by
  rw [completeMultipartUpload, if_neg hcount]
  rcases roundTrip_of_heard hheard with ⟨c, -, hrun⟩ | ⟨-, e, c, hrun⟩
  · rw [hrun, serve_complete hu hlisted]
    exact .inl ⟨c, rfl⟩
  · rw [hrun]
    exact .inr ⟨e, c, rfl⟩

/-- The object is replaced, but the client is told nothing, or that there is no such upload. -/
theorem complete_of_not_heard {net : Attempts} (hcount : ¬(etags.length = 0 ∨
      s3MaxMultipartParts < etags.length)) (hu : b.upload key id = some u)
    (hlisted : u.listed 1 etags = some datas) (hheard : heard (List.ofFn net) cancelled = false) :
    ∃ e c, completeMultipartUpload etagOf key id etags net cancelled b =
      (.error e, c, b.completed key id datas) := by
  have hgone : (b.completed key id datas).uploads[id]? = some none :=
    getElem?_setUpload (upload_eq_some.1 hu).1 none
  have hserved : serve etagOf (.complete key id etags) b = (.done, b.completed key id datas) :=
    serve_complete hu hlisted
  rw [completeMultipartUpload, if_neg hcount]
  have hends : (roundTrip etagOf (.complete key id etags) (List.ofFn net) cancelled b).2.2 =
        b.completed key id datas ∧
      ∃ e, decoded (roundTrip etagOf (.complete key id etags) (List.ofFn net) cancelled b).1 =
        .error e := by
    rcases @roundTrip_of_not_heard etagOf (.complete key id etags) (List.ofFn net) cancelled b
      hheard with ⟨fates', hrun⟩ | ⟨result, c, hrun, hresult⟩
    · have hserve : ∀ b', b' = b.completed key id datas →
          (serve etagOf (.complete key id etags) b').2 = b.completed key id datas := by
        rintro b' rfl
        rw [serve_complete_gone hgone]
      rw [hrun, hserved]
      refine ⟨@roundTrip_invariant etagOf _ fates' false _ (· = b.completed key id datas) rfl
        hserve, ?_⟩
      cases hdecoded : decoded (roundTrip etagOf (.complete key id etags) fates' false
        (b.completed key id datas)).1 with
      | error e => exact ⟨e, rfl⟩
      | ok answer =>
        have hwhole := decoded_eq_ok hdecoded
        obtain ⟨b', rfl, hanswer⟩ := @roundTrip_answer etagOf _ fates' false _
          (· = b.completed key id datas) rfl hserve answer hwhole
        rw [serve_complete_gone hgone] at hanswer
        rw [hwhole, hanswer] at hdecoded
        cases hdecoded
    · rw [hrun, hserved]
      exact ⟨rfl, decoded_of_not_whole hresult⟩
  generalize roundTrip etagOf (.complete key id etags) (List.ofFn net) cancelled b = run at hends
  obtain ⟨result, c, b'⟩ := run
  obtain ⟨rfl, e, herror⟩ := hends
  dsimp only at herror ⊢
  rw [herror]
  exact ⟨e, c, rfl⟩

/-! ## Other uploads -/

/-- The upload that a request is about, unless it creates one. -/
def UploadRequest.upload : UploadRequest → Option Nat
  | .create _ => none
  | .copyPart _ id _ _ | .complete _ id _ | .abort _ id => some id

theorem serve_others {j : Nat} (hid : request.upload = some id) (hj : j ≠ id) :
    (serve etagOf request b).2.uploads[j]? = b.uploads[j]? := by
  have hset (x : Option Upload) : (b.uploads.set id x)[j]? = b.uploads[j]? :=
    List.getElem?_set_ne hj.symm
  cases request with
  | create key => cases hid
  | copyPart key id' n step =>
    obtain rfl := Option.some.inj hid
    rw [serve]
    split
    · rfl
    · split
      · rfl
      · exact hset _
  | complete key id' etags =>
    obtain rfl := Option.some.inj hid
    rw [serve]
    split
    · rfl
    · split
      · rfl
      · exact hset _
  | abort key id' =>
    obtain rfl := Option.some.inj hid
    rw [serve]
    split
    · rfl
    · exact hset _

theorem roundTrip_others {j : Nat} (hid : request.upload = some id) (hj : j ≠ id) :
    (roundTrip etagOf request fates cancelled b).2.2.uploads[j]? = b.uploads[j]? :=
  @roundTrip_invariant etagOf request fates cancelled b
    (fun b' => b'.uploads[j]? = b.uploads[j]?) rfl
    fun b' h => (@serve_others etagOf request b' id j hid hj).trans h

theorem uploadPartCopy_others {net : Attempts} {step : DHCopyStep} {n j : Nat} (hj : j ≠ id) :
    (uploadPartCopy etagOf key id n step net cancelled b).2.2.uploads[j]? = b.uploads[j]? := by
  have hrun := @roundTrip_others etagOf (.copyPart key id n step) (List.ofFn net) cancelled b id j
    rfl hj
  unfold uploadPartCopy
  split
  · rfl
  · generalize roundTrip etagOf (.copyPart key id n step) (List.ofFn net) cancelled b = run at hrun
    obtain ⟨result, c, b'⟩ := run
    dsimp only
    split <;> exact hrun

theorem copySteps_others {net : Nat → Attempts} {steps : List DHCopyStep} {i j : Nat}
    (hj : j ≠ id) :
    (copySteps etagOf key id net i etags steps cancelled b).2.2.uploads[j]? = b.uploads[j]? := by
  induction steps generalizing i etags cancelled b with
  | nil => rfl
  | cons step steps ih =>
    have hcopy := @uploadPartCopy_others etagOf false b key id (net i) step (i + 1) j hj
    unfold copySteps
    split
    · rfl
    · generalize uploadPartCopy etagOf key id (i + 1) step (net i) false b = run at hcopy
      obtain ⟨_ | etag, c, b'⟩ := run
      · exact hcopy
      · exact ih.trans hcopy

theorem complete_others {net : Attempts} {j : Nat} (hj : j ≠ id) :
    (completeMultipartUpload etagOf key id etags net cancelled b).2.2.uploads[j]? =
      b.uploads[j]? := by
  have hrun := @roundTrip_others etagOf (.complete key id etags) (List.ofFn net) cancelled b id j
    rfl hj
  unfold completeMultipartUpload
  split
  · rfl
  · generalize roundTrip etagOf (.complete key id etags) (List.ofFn net) cancelled b = run at hrun
    obtain ⟨result, c, b'⟩ := run
    dsimp only
    split <;> exact hrun

theorem abort_others {net : Attempts} {j : Nat} (hj : j ≠ id) :
    (abortMultipartUpload etagOf key id net b).2.uploads[j]? = b.uploads[j]? := by
  have hrun := @roundTrip_others etagOf (.abort key id) (List.ofFn net) false b id j rfl hj
  unfold abortMultipartUpload
  generalize roundTrip etagOf (.abort key id) (List.ofFn net) false b = run at hrun
  obtain ⟨result, c, b'⟩ := run
  dsimp only
  split <;> exact hrun

/-- What an assembly does after its upload was created leaves the other uploads alone. -/
theorem assemble_others {net : AssembleNet} {steps : List DHCopyStep} {c : Bool} {b' : Bucket}
    {j : Nat} (hempty : ¬steps.length = 0) (hmany : ¬s3MaxMultipartParts < steps.length)
    (hcreate : createMultipartUpload etagOf key net.create cancelled b = (.ok id, c, b'))
    (hj : j ≠ id) :
    (assembleDHObject etagOf net key steps cancelled b).2.uploads[j]? = b'.uploads[j]? := by
  rw [assembleDHObject, if_neg hempty, if_neg hmany, hcreate]
  dsimp only
  have hcopies := @copySteps_others etagOf c b' key id [] net.copy steps 0 j hj
  generalize copySteps etagOf key id net.copy 0 [] steps c b' = copies at hcopies
  obtain ⟨_ | etags, c₁, b₁⟩ := copies
  · exact abort_others hj |>.trans hcopies
  · dsimp only
    have hcomplete := @complete_others etagOf c₁ b₁ key id etags net.complete j hj
    generalize completeMultipartUpload etagOf key id etags net.complete c₁ b₁ = completed
      at hcomplete
    obtain ⟨_ | _, c₂, b₂⟩ := completed
    · exact (abort_others hj).trans (hcomplete.trans hcopies)
    · exact hcomplete.trans hcopies

/-! ## Assembling -/

/-- No upload is open that was not, and the object is as it was if the assembly failed. -/
structure Tidy (b : Bucket) (result : Option AssembleError × Bucket) : Prop where
  closed : ∀ (id : Nat) (u : Upload), result.2.uploads[id]? = some (some u) →
    ∃ u' : Upload, b.uploads[id]? = some (some u')
  kept : result.1 ≠ none → result.2.objects = b.objects ∧ result.2.written = b.written

/-- The answer to the create arrives, if the create is performed; and so does the answer to the
complete, if everything before it is answered. -/
def Answered (etagOf : List UInt8 → String) (net : AssembleNet) (steps : List DHCopyStep)
    (cancelled : Bool) (objects : GoMap (List UInt8)) : Prop :=
  heard (List.ofFn net.create) cancelled = true ∧
    ∀ c c', exchange (List.ofFn net.create) cancelled = some c →
      copiesThrough etagOf objects net.copy 0 steps c = some c' →
        heard (List.ofFn net.complete) c' = true

/-- The upload that was created is closed, and no other was touched. -/
theorem closed_of_others {b' : Bucket}
    (hothers : ∀ j, j ≠ b.uploads.length → b'.uploads[j]? = (b.opened key).uploads[j]?)
    (hclosed : b'.uploads[b.uploads.length]? = some none) (j : Nat) (u : Upload)
    (hu : b'.uploads[j]? = some (some u)) : ∃ u' : Upload, b.uploads[j]? = some (some u') := by
  have hne : j ≠ b.uploads.length := by
    rintro rfl
    cases hclosed.symm.trans hu
  rw [hothers j hne, Bucket.opened] at hu
  dsimp only at hu
  rcases Nat.lt_or_gt_of_ne hne with hlt | hgt
  · rw [List.getElem?_append_left hlt] at hu
    exact ⟨u, hu⟩
  · rw [List.getElem?_eq_none (by simp; omega)] at hu
    cases hu

theorem tidy_of_oneUpload {b' : Bucket} {result : Option AssembleError}
    (hone : OneUpload b.uploads.length (b.opened key) b')
    (hclosed : b'.uploads[b.uploads.length]? = some none) : Tidy b (result, b') :=
  ⟨closed_of_others hone.others hclosed, fun _ => ⟨hone.objects, hone.written⟩⟩

/-- An assembly is tidy if and only if it is refused before its first request, or hears of every
create and every complete that the service performs. -/
theorem assemble_tidy_iff {net : AssembleNet} {steps : List DHCopyStep}
    (hreach : ∀ i, ∃ back, (net.abort i).reach = .reached back) :
    Tidy b (assembleDHObject etagOf net key steps cancelled b) ↔
      steps.length = 0 ∨ s3MaxMultipartParts < steps.length ∨
        Answered etagOf net steps cancelled b.objects := by
  by_cases hempty : steps.length = 0
  · rw [assembleDHObject, if_pos hempty]
    exact iff_of_true ⟨fun _ u hu => ⟨u, hu⟩, fun _ => ⟨rfl, rfl⟩⟩ (.inl hempty)
  by_cases hmany : s3MaxMultipartParts < steps.length
  · rw [assembleDHObject, if_neg hempty, if_pos hmany]
    exact iff_of_true ⟨fun _ u hu => ⟨u, hu⟩, fun _ => ⟨rfl, rfl⟩⟩ (.inr (.inl hmany))
  rw [or_iff_right hempty, or_iff_right hmany]
  cases hcreate : heard (List.ofFn net.create) cancelled with
  | false =>
    refine iff_of_false (fun htidy => ?_) fun h => by cases hcreate.symm.trans h.1
    obtain ⟨hopen, hother⟩ := @create_of_not_heard etagOf cancelled b key net.create hcreate
    have hleft : (assembleDHObject etagOf net key steps cancelled b).2.uploads[b.uploads.length]? =
        some (some ⟨key, ∅⟩) := by
      rw [← hopen]
      rcases hrun : createMultipartUpload etagOf key net.create cancelled b with ⟨_ | id, c, b₁⟩
      · rw [assembleDHObject, if_neg hempty, if_neg hmany, hrun]
      · apply assemble_others hempty hmany hrun
        rintro rfl
        rw [hrun] at hother
        exact hother rfl
    obtain ⟨u, hu⟩ := htidy.closed _ _ hleft
    rw [List.getElem?_eq_none (Nat.le_refl _)] at hu
    cases hu
  | true =>
    rw [assembleDHObject, if_neg hempty, if_neg hmany]
    rcases @create_of_heard etagOf cancelled b key net.create hcreate with
      ⟨c, hexchange, hrun⟩ | ⟨hexchange, e, c, hrun⟩
    · rw [hrun]
      dsimp only
      have hu : (b.opened key).upload key b.uploads.length = some ⟨key, ∅⟩ :=
        upload_eq_some.2 ⟨by simp [Bucket.opened], rfl⟩
      cases hcopies : copiesThrough etagOf b.objects net.copy 0 steps c with
      | none =>
        obtain ⟨e, c', b₁, hcopied, hone, hours⟩ :=
          @copySteps_of_not_through etagOf c (b.opened key) key b.uploads.length net.copy steps 0 []
            _ hu hcopies
        rw [hcopied]
        obtain ⟨hone', hclosed⟩ := @abort_closes etagOf b₁ key b.uploads.length net.abort hreach hours
        refine iff_of_true (tidy_of_oneUpload (hone.trans hone') hclosed) ⟨hcreate, ?_⟩
        intro c₁ c₂ hc hthrough
        obtain rfl := Option.some.inj (hexchange.symm.trans hc)
        cases hcopies.symm.trans hthrough
      | some c' =>
        obtain ⟨etags, b₁, u, datas, hcopied, hlength, hone, hu₁, hlisted⟩ :=
          @copySteps_of_through etagOf c (b.opened key) key b.uploads.length net.copy steps 0 c' []
            _ [] hu rfl rfl hcopies
        have hcount : ¬(etags.length = 0 ∨ s3MaxMultipartParts < etags.length) := by
          rw [hlength, zero_add]
          exact not_or_intro hempty hmany
        have hgone (datas : List (List UInt8)) :
            (b₁.completed key b.uploads.length datas).uploads[b.uploads.length]? = some none :=
          getElem?_setUpload (upload_eq_some.1 hu₁).1 none
        rw [hcopied]
        dsimp only
        cases hcomplete : heard (List.ofFn net.complete) c' with
        | false =>
          obtain ⟨e, c'', hcompleted⟩ :=
            @complete_of_not_heard etagOf c' b₁ key b.uploads.length etags u datas net.complete
              hcount hu₁ hlisted hcomplete
          rw [hcompleted]
          obtain ⟨hone', -⟩ := @abort_closes etagOf _ key b.uploads.length net.abort hreach
            (.inl (hgone datas))
          refine iff_of_false (fun htidy => ?_) fun h => ?_
          · obtain ⟨-, hwritten⟩ := htidy.kept nofun
            have hsame : b₁.written = b.written := hone.written
            have hmore : key :: b₁.written = b₁.written :=
              hone'.written.symm.trans (hwritten.trans hsame.symm)
            exact absurd (congrArg List.length hmore) (Nat.succ_ne_self _)
          · cases hcomplete.symm.trans (h.2 c c' hexchange hcopies)
        | true =>
          refine iff_of_true ?_ ⟨hcreate, fun c₁ c₂ hc hthrough => ?_⟩
          · rcases @complete_of_heard etagOf c' b₁ key b.uploads.length etags u datas net.complete
              hcount hu₁ hlisted hcomplete with ⟨c'', hcompleted⟩ | ⟨e, c'', hcompleted⟩
            · rw [hcompleted]
              refine ⟨@closed_of_others b key _ (fun j hj => ?_) (hgone datas), absurd rfl⟩
              exact (List.getElem?_set_ne hj.symm).trans (hone.others j hj)
            · rw [hcompleted]
              obtain ⟨hone', hclosed⟩ := @abort_closes etagOf b₁ key b.uploads.length net.abort
                hreach (.inr ⟨u, upload_eq_some.1 hu₁⟩)
              exact tidy_of_oneUpload (hone.trans hone') hclosed
          · obtain rfl := Option.some.inj (hexchange.symm.trans hc)
            obtain rfl := Option.some.inj (hcopies.symm.trans hthrough)
            exact hcomplete
    · rw [hrun]
      refine iff_of_true ⟨fun _ u hu => ⟨u, hu⟩, fun _ => ⟨rfl, rfl⟩⟩ ⟨hcreate, fun c c' hc _ => ?_⟩
      cases hexchange.symm.trans hc

end

/-! ## Lost answers -/

/-- Every attempt is answered. -/
def goodFate : Fate := ⟨.reached .answered, false⟩

def goodNet : AssembleNet := ⟨fun _ => goodFate, fun _ _ => goodFate, fun _ => goodFate,
  fun _ => goodFate⟩

/-- The answer to the first attempt at the create is lost with its connection. -/
def lostCreate : AssembleNet :=
  { goodNet with create := fun i => if i = 0 then ⟨.reached .dropped, false⟩ else goodFate }

def sampleEtag (data : List UInt8) : String := toString data.length

def sampleBucket : Bucket := ⟨GoMap.ofList [("parts/a", [1, 2])], [], []⟩

theorem assemble_tidy_iff_goodNet : Tidy sampleBucket
    (assembleDHObject sampleEtag goodNet "file" [⟨"parts/a", none⟩] false sampleBucket) := by
  have hiff := @assemble_tidy_iff sampleEtag false sampleBucket "file" goodNet [⟨"parts/a", none⟩]
    fun _ => ⟨.answered, rfl⟩
  refine hiff.2 (.inr (.inr ⟨by decide, fun c c' hc hthrough => ?_⟩))
  obtain rfl : c = false := by
    have hexchange : exchange (List.ofFn goodNet.create) false = some false := by decide
    exact (Option.some.inj (hexchange.symm.trans hc)).symm
  obtain rfl : c' = false := by
    have hcopies : copiesThrough sampleEtag sampleBucket.objects goodNet.copy 0
        [⟨"parts/a", none⟩] false = some false := by decide +kernel
    exact (Option.some.inj (hcopies.symm.trans hthrough)).symm
  decide

/-- With the answer to the first create lost, the retry creates a second upload, and the assembly
succeeds; the first upload stays open. -/
theorem not_tidy_of_lostCreate : ¬ ∀ (etagOf : List UInt8 → String) (net : AssembleNet)
    (key : String) (steps : List DHCopyStep) (cancelled : Bool) (b : Bucket),
    (∀ i, ∃ back, (net.abort i).reach = .reached back) →
      Tidy b (assembleDHObject etagOf net key steps cancelled b) := by
  intro htidy
  have hleft : (assembleDHObject sampleEtag lostCreate "file" [⟨"parts/a", none⟩] false
      sampleBucket).2.uploads[0]?.join.isSome = true := by
    decide +kernel
  obtain ⟨u, hu⟩ := Option.isSome_iff_exists.1 hleft
  obtain ⟨u', hu'⟩ := (htidy sampleEtag lostCreate "file" [⟨"parts/a", none⟩] false sampleBucket
    fun _ => ⟨.answered, rfl⟩).closed 0 u (Option.join_eq_some_iff.1 hu)
  cases hu'

end Konnekt.Snapshots
