import LongRequestProxy.System

/-!
# The calls of the functions without transactions

Creation, dispatch, the notification of a cancellation and the guard of the callbacks open no
transaction and publish nothing. What they can await is listed here, once for all protocols.

## Main definitions

* `Await.IsCreation`, `Await.IsDispatch`, `Await.IsNotification`: the calls of each function.
* `Await.IsPlain`: the calls of any of them.

## Main results

* `create_uses`, `canActivate_uses`, `dispatch_uses`, …: the functions make no other calls.
-/

namespace LongRequestProxy

open Async

/-! ### The calls -/

namespace Await

/-- The calls of `TasksService.create`. -/
def IsCreation : Await → Prop
  | now | randomUUID | insertTask .. | deleteTask _ | redisOccupy .. | redisSetKeepTtl ..
  | redisDel _ | enqueue (.dispatch ..) => True
  | _ => False

/-- The calls of `DispatchProcessor.process`. -/
def IsDispatch : Await → Prop
  | now => True
  | updateTask _ w => w.ending = none ∨ w.isDispatchFailure = true
  | c => c.IsHttp

/-- The calls of `CallbackAuthGuard`, `CancelProcessor.process` and `WebhookProcessor.process`. -/
def IsNotification : Await → Prop
  | findTask _ => True
  | c => c.IsHttp

/-- The calls of these functions. -/
def IsPlain (c : Await) : Prop := c.IsCreation ∨ c.IsDispatch ∨ c.IsNotification

theorem IsHttp.isDispatch {c : Await} (h : c.IsHttp) : c.IsDispatch := by
  cases c <;> trivial

theorem IsHttp.isNotification {c : Await} (h : c.IsHttp) : c.IsNotification := by
  cases c <;> trivial

end Await

/-! ### The functions -/

section

variable {α β : Type} {p : Await → Prop}

theorem uses_bind {P : Async α} {f : α → Async β} (hP : P.run.Uses p)
    (hf : ∀ a, (f a).run.Uses p) : (P >>= f).run.Uses p :=
  Prog.Uses.bindExcept hP hf

theorem uses_tryCatch {P : Async α} {f : JsError → Async α} (hP : P.run.Uses p)
    (hf : ∀ e, (f e).run.Uses p) : (tryCatch P f).run.Uses p :=
  Prog.Uses.tryCatch hP hf

theorem uses_pure (a : α) : (pure a : Async α).run.Uses p := trivial

theorem uses_throw (e : JsError) : (throw e : Async α).run.Uses p := trivial

end

theorem create_uses (dto : CreateTaskDto) (baseUrl : String) :
    (TasksService.create dto baseUrl).run.Uses Await.IsCreation := by
  have hrelease : ∀ key, (TasksService.releaseQuietly key).run.Uses Await.IsCreation := by
    intro key
    cases key with
    | none => exact uses_pure ()
    | some key => exact uses_tryCatch (Uses.call trivial) fun _ => uses_pure ()
  have htask : ∀ key, (TasksService.createTask dto baseUrl key).run.Uses Await.IsCreation := by
    intro key
    refine uses_bind (uses_tryCatch ?_ fun e => uses_bind (hrelease key) fun _ => uses_throw e)
      fun task => uses_bind (uses_tryCatch (Uses.call trivial) fun e => ?_) fun _ =>
        uses_bind ?_ fun _ => uses_pure _
    · exact uses_bind (Uses.call trivial) fun _ => uses_bind (Uses.call trivial) fun _ =>
        Uses.call trivial
    · exact uses_bind (uses_tryCatch (Uses.call trivial) fun _ => uses_pure ()) fun _ =>
        uses_bind (hrelease key) fun _ => uses_throw e
    · cases key with
      | none => exact uses_pure ()
      | some key => exact uses_tryCatch (Uses.call trivial) fun _ => uses_pure ()
  unfold TasksService.create
  split
  · exact htask none
  · refine uses_bind (uses_bind (Uses.call trivial) fun _ => uses_pure _) fun slot => ?_
    cases slot with
    | acquired => exact htask _
    | pending => exact uses_throw _
    | duplicate taskId => exact uses_pure _

theorem canActivate_uses (taskId : String) (authorization : Option String) :
    (CallbackAuthGuard.canActivate taskId authorization).run.Uses Await.IsNotification := by
  unfold CallbackAuthGuard.canActivate
  split
  · exact uses_throw _
  split
  · exact uses_throw _
  refine uses_bind (Uses.call trivial) fun task => ?_
  cases task with
  | none => exact uses_throw _
  | some task =>
    dsimp only
    split
    · exact uses_throw _
    split
    · exact uses_throw _
    split
    · exact uses_throw _
    · exact uses_pure _

theorem dispatch_uses (http : HttpClient) (taskId : String) (timeoutSeconds : ℤ) :
    (DispatchProcessor.process http taskId timeoutSeconds).run.Uses Await.IsDispatch := by
  refine uses_bind (Uses.call trivial) fun now => uses_bind (Uses.call (.inl rfl)) fun task => ?_
  cases task with
  | none => exact uses_pure ()
  | some task =>
    refine uses_tryCatch (uses_bind ((http.post_uses ..).mono fun _ => Await.IsHttp.isDispatch)
      fun _ => uses_pure ()) fun err => ?_
    unfold DispatchProcessor.onError
    split
    · exact uses_bind (Uses.call trivial) fun _ => uses_bind (Uses.call (.inr rfl)) fun _ =>
        uses_pure ()
    · exact uses_bind (uses_tryCatch (uses_bind (Uses.call (.inl rfl)) fun _ => uses_pure ())
        fun _ => uses_pure ()) fun _ => uses_throw _

theorem notifyCancel_uses (http : HttpClient) (taskId : String) :
    (CancelProcessor.process http taskId).run.Uses Await.IsNotification := by
  refine uses_bind (Uses.call trivial) fun task => ?_
  cases task with
  | none => exact uses_pure ()
  | some task =>
    dsimp only
    split
    · exact uses_pure ()
    · exact uses_tryCatch (uses_bind ((http.post_uses ..).mono fun _ => Await.IsHttp.isNotification)
        fun _ => uses_pure ()) fun _ => uses_pure ()

theorem deliver_uses (http : HttpClient) (webhookUrl : String) (payload : Json) :
    (WebhookProcessor.deliver http webhookUrl payload).run.Uses Await.IsHttp := by
  refine uses_tryCatch (uses_bind (http.post_uses ..) fun _ => uses_pure ()) fun err => ?_
  split
  · exact uses_pure ()
  · exact uses_throw err

theorem notifyWebhook_uses (http : HttpClient) (taskId : String) :
    (WebhookProcessor.process http taskId).run.Uses Await.IsNotification := by
  refine uses_bind (Uses.call trivial) fun task => ?_
  cases task with
  | none => exact uses_pure ()
  | some task =>
    dsimp only
    split
    · exact uses_pure ()
    · exact (deliver_uses http _ _).mono fun _ => Await.IsHttp.isNotification

end LongRequestProxy
