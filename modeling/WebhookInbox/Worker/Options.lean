import WebhookInbox.Domain.Entities

/-!
# Delivery options and the stopping rule

`DeliveryOptions` with its defaults, and the two helpers of `DeliveryProcessor` that
read nothing but the options: `IsExhausted` and `Truncate`. The options that only set
timers are read by no modelled code.
-/

namespace WebhookInbox.Worker

structure DeliveryOptions where
  batchSize : Int := 50
  inlineRetryCount : Int := 2
  backoffSeconds : List Int := [60, 300, 900, 3600, 21600]
  maxAttempts : Int := 6

def isExhausted (opts : DeliveryOptions) (tryNumber : Int) : Bool :=
  let index := tryNumber - 1
  decide (opts.backoffSeconds.length ≤ index) || decide (opts.maxAttempts ≤ tryNumber)

/-- The number of attempts the options allow a pair. -/
def attemptCap (opts : DeliveryOptions) : Int :=
  min opts.maxAttempts (opts.backoffSeconds.length + 1)

theorem isExhausted_iff (opts : DeliveryOptions) (tryNumber : Int) :
    isExhausted opts tryNumber = true ↔ attemptCap opts ≤ tryNumber := by
  simp only [isExhausted, attemptCap, Bool.or_eq_true, decide_eq_true_eq]
  omega

/-- `HttpResponseMessage.IsSuccessStatusCode`. -/
def isSuccessStatusCode (code : Nat) : Bool := decide (200 ≤ code ∧ code ≤ 299)

def truncate (s : Utf16) (max : Nat) : Utf16 := if s.length ≤ max then s else s.take max

/-- The UTF-16 code units of a text. -/
def toUtf16 (s : Text) : Utf16 :=
  s.flatMap fun c =>
    if c.toNat < 0x10000 then [UInt16.ofNat c.toNat]
    else
      [UInt16.ofNat (0xD800 + (c.toNat - 0x10000) / 0x400),
        UInt16.ofNat (0xDC00 + (c.toNat - 0x10000) % 0x400)]

end WebhookInbox.Worker
