import Mathlib.Tactic

/-!
# Task schemas

The data of `schemas/task.py` and of the `tasks` table of
`migrations/0001_initialization.sql`.

`HttpUrl` is pydantic's URL type: an object that is not a `str`, with
`str(url)` as its text.  Which texts it accepts is pydantic's business; it is
the parameter `UrlValidator.validate`.  A row of the table holds the text, so
reading a row back validates the text again.
-/

namespace SmartHttpRequester

/-- Values of `gen_random_uuid()`. -/
abbrev UUID := BitVec 128

/-- PostgreSQL timestamps, in microseconds. -/
abbrev Timestamp := Nat

/-- `users.id`. -/
abbrev UserId := Int

section Schemas

/-- `pydantic.HttpUrl`; `str` is its text. -/
structure HttpUrl where
  str : String
deriving DecidableEq, Repr

/-- The texts `HttpUrl` accepts, with the URL each becomes. -/
class UrlValidator where
  validate : String → Option HttpUrl
  /-- the text of the `ValidationError`, for the URL of a row or for `None` -/
  errorText : Option String → String

/-- `Literal["GET", "POST", "PUT", "DELETE", "PATCH"]`. -/
inductive HttpMethod
  | GET
  | POST
  | PUT
  | DELETE
  | PATCH
deriving DecidableEq, Repr

/--
The `status` column.  The API writes the first three; the others are the ones
the migration names for the workers.
-/
inductive TaskStatus
  | beforeRmq
  | pending
  | canceled
  | running
  | done
  | failed
deriving DecidableEq, Repr

/-- The text of a status in the column. -/
def TaskStatus.text : TaskStatus → String
  | .beforeRmq => "BEFORE RMQ"
  | .pending => "pending"
  | .canceled => "canceled"
  | .running => "running"
  | .done => "done"
  | .failed => "failed"

/-- `dict[str, str]`, which JSONB stores as a mapping. -/
abbrev Headers := List (String × String)

/-- Body of `POST /requests/`; pydantic enforces `le=20`. -/
structure TaskCreate where
  url : HttpUrl
  method : HttpMethod := .GET
  headers : Option Headers := none
  body : Option String := none
  maxAttempts : Int := 5
  maxAttempts_le : maxAttempts ≤ 20

/-- Body of `PUT /requests/{task_id}`. -/
structure TaskUpdate where
  url : HttpUrl
  method : HttpMethod := .GET
  headers : Option Headers := none
  body : Option String := none
deriving DecidableEq

/-- A row of the `tasks` table. -/
structure TaskRow where
  id : UUID
  userId : UserId
  url : String
  method : HttpMethod
  headers : Option Headers
  body : Option String
  status : TaskStatus
  attemptCount : Int
  maxAttempts : Int
  result : Option String
  createdAt : Timestamp
  updatedAt : Option Timestamp
deriving DecidableEq, Repr

/-- What the API returns for a task. -/
structure TaskResponse where
  id : UUID
  url : HttpUrl
  method : HttpMethod
  headers : Option Headers
  body : Option String
  status : TaskStatus
  attemptCount : Int
  maxAttempts : Int
  result : Option String
  createdAt : Timestamp
  updatedAt : Option Timestamp
deriving DecidableEq, Repr

/--
`TaskResponse.model_validate(row)`: the URL text is validated again, the other
columns have the types of their fields.
-/
def TaskResponse.modelValidate [UrlValidator] (row : TaskRow) : Option TaskResponse :=
  (UrlValidator.validate row.url).map fun url =>
    { id := row.id
      url := url
      method := row.method
      headers := row.headers
      body := row.body
      status := row.status
      attemptCount := row.attemptCount
      maxAttempts := row.maxAttempts
      result := row.result
      createdAt := row.createdAt
      updatedAt := row.updatedAt }

/-- A response shows the row it was validated from. -/
theorem TaskResponse.modelValidate_eq_some [UrlValidator] {row : TaskRow} {task : TaskResponse}
    (h : TaskResponse.modelValidate row = some task) :
    UrlValidator.validate row.url = some task.url ∧
    task.id = row.id ∧
    task.status = row.status ∧
    task.maxAttempts = row.maxAttempts := by
  obtain ⟨url, hurl, rfl⟩ := Option.map_eq_some_iff.1 h
  exact ⟨hurl, rfl, rfl, rfl⟩

end Schemas

end SmartHttpRequester
