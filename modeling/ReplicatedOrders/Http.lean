/-
The HTTP interface of a replica: health, statistics, orders, one order, and an image on demand.

A request is routed by the path of its target alone, exactly as written; the method is looked at afterwards. The target
is a path, or a whole address that holds one. A route allows either `GET` and `HEAD` or `POST`, and `OPTIONS` is always
answered. `HEAD` is `GET` without the body. Every response may be
read by any origin.
-/
import ReplicatedOrders.Http.Percent
import ReplicatedOrders.Replica.Archive
import ReplicatedOrders.Text.Piece

namespace ReplicatedOrders

open Json

/-- a summary as JSON -/
def Stats.toDoc (s : Stats) : Doc :=
  .record [("order_count", .count s.orderCount),
    ("enriched_count", .count s.enrichedCount), ("cursor", s.cursor.toDoc),
    ("total_upserts", .count s.totals.upserts),
    ("total_deletes", .count s.totals.deletes),
    ("total_enrichments", .count s.totals.enrichments)]

namespace Http

/-! ## Requests -/

inductive Method where
  | get
  | head
  | post
  | options
  | other
deriving DecidableEq, Repr

/-- methods are spelled in upper case -/
def Method.ofText : String → Method
  | "GET" => get
  | "HEAD" => head
  | "POST" => post
  | "OPTIONS" => options
  | _ => other

inductive Route where
  | health
  | stats
  | orders
  /-- one order, by the segment of the path that names it -/
  | order (segment : String)
  | snapshot
deriving DecidableEq, Repr

namespace Route

/-- characters of the scheme of an address -/
def inScheme (c : Char) : Bool := c.isAlphanum || c == '+' || c == '-' || c == '.'

/-- characters that end the path of a target -/
def endsPath (c : Char) : Bool := c == '?' || c == '#'

/-- what follows the scheme and the authority of an address, `https://host:80/orders`; a path stays as it is -/
def afterAuthority (target : List Char) : List Char :=
  match target.dropWhile inScheme with
  | ':' :: '/' :: '/' :: rest => rest.dropWhile fun c => !(c == '/' || endsPath c)
  | _ => target

/-- the path of a target, up to the query or the fragment -/
def pathOf (target : String) : List Char := (afterAuthority target.toList).takeWhile fun c => !endsPath c

/-- the route of a path: its segments must be the same to the letter -/
def ofTarget? (target : String) : Option Route :=
  match (Text.pieces '/' (pathOf target)).map String.ofList with
  | ["", "health"] => some health
  | ["", "stats"] => some stats
  | ["", "orders"] => some orders
  | ["", "snapshot"] => some snapshot
  | ["", "order", segment] => if segment = "" then none else some (order segment)
  | _ => none

example : ofTarget? "https://user@host:80/orders?all" = some orders := by decide +kernel
example : ofTarget? "/order/a#b" = some (order "a") := by decide +kernel

def accepts : Route → Method → Bool
  | snapshot, m => m == .post
  | _, m => m == .get || m == .head

/-- the methods that a route accepts -/
def allow : Route → String
  | snapshot => "POST"
  | _ => "GET,HEAD"

end Route

/-! ## Responses -/

structure Response where
  status : Nat
  contentType : Option String := none
  allow : Option String := none
  body : String := ""
deriving DecidableEq, Repr

/-- the origins that may read a response -/
def allowedOrigins : String := "*"

namespace Response

def json (status : Nat) (body : Doc) : Response :=
  { status, contentType := some "application/json", body := body.compact }

def error (status : Nat) (message : String) : Response := json status (.record [("error", .text message)])

def plain (status : Nat) (body : String) : Response := { status, contentType := some "text/plain; charset=utf-8", body }

/-- the response to the same request with the method `HEAD` -/
def withoutBody (r : Response) : Response := { r with body := "" }

end Response

/-! ## Answers -/

/-- what a route answers to a method that it accepts -/
def serve (r : Replica) (createdAt : Int64) : Route → Replica × Response
  | .health => (r, .json 200 (.record [("status", .text "ok")]))
  | .stats => (r, .json 200 r.store.stats.toDoc)
  | .orders =>
    (r, .json 200 (.record [("count", .count r.store.size),
      ("orders", .array (r.store.toList.map Order.toDoc))]))
  | .order segment =>
    match Percent.decode? segment with
    | none => (r, .plain 400 "Invalid URL: Invalid UTF-8 in `order_hash`")
    | some hash =>
      match r.store.get? hash with
      | some o => (r, .json 200 o.toDoc)
      | none => (r, .error 404 ("Order '" ++ hash ++ "' not found"))
  | .snapshot =>
    match r.publish createdAt with
    | (r, .ok id) => (r, .json 200 (.record [("snapshotId", id.toDoc)]))
    | (r, .error e) => (r, .error 500 (e.message?.getD ""))

/-- answer a request; an image that it asks for has the given creation time -/
def respond (r : Replica) (createdAt : Int64) (method : Method) (target : String) : Replica × Response :=
  match Route.ofTarget? target with
  | none => (r, { status := if method = .options then 200 else 404 })
  | some route =>
    if method = .options then (r, { status := 200, allow := some route.allow })
    else if route.accepts method then
      let (r, response) := serve r createdAt route
      (r, if method = .head then response.withoutBody else response)
    else (r, { status := 405, allow := some route.allow })

end Http

end ReplicatedOrders
