import CiteVyn.Billing.Entitlement

/-! # Mail to accounts

What the senders of `app/services` have in common: the columns of `users` that they
read, and what comes of a send. -/
namespace CiteVyn.Services
open CiteVyn.Text

/-- `User`. -/
structure User where
  userId : Str
  email : Option Str
  emailVerifiedAt : Option Int
  digestOptInAt : Option Int
  deriving DecidableEq, Repr

/-- The address of an account that has been verified. -/
def User.verifiedEmail (user : User) : Option Str :=
  if user.emailVerifiedAt.isSome then user.email else none

/-- How `client.send` ends. -/
inductive SendOutcome where
  | returned
  /-- `EmailDeliveryError` -/
  | deliveryError
  /-- anything else -/
  | raised
  deriving DecidableEq, Repr

/-- `WINDOW`, seven days. -/
def window : Int := 7 * 86400000000

end CiteVyn.Services
