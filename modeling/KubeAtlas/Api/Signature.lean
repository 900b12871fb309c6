import KubeAtlas.Crypto.Hmac
import KubeAtlas.Text.Base64
import KubeAtlas.Text.Upper
import KubeAtlas.Url.Address
/-!
# Signatures of requests

A request carries a keyed digest of what it asks for: the method and the path, the body, the values
of the query in the order of their names, and the time until which it is valid. The names of the
signed parts of the query are listed in the header.
-/

namespace KubeAtlas.Api

/-- For how many seconds a signature is valid. -/
def validity : Int := 600

/-- The distinct names of a query in order, each with the first of its values. -/
def signedQuery (query : List (String × String)) : List (String × String) :=
  let first := query.foldl
    (fun seen e => if seen.any (·.1 == e.1) then seen else seen ++ [e]) []
  first.mergeSort fun a b => a.1 < b.1 || a.1 == b.1

structure Signed where
  method : String
  path : String
  body : List UInt8
  query : List (String × String)
  expires : Int

/-- The message that is digested: five lines, the fourth of them empty. -/
def Signed.message (s : Signed) : List UInt8 :=
  let line := fun (t : String) => Text.Utf8.encode t.toList
  line (Text.upper s.method ++ " " ++ s.path) ++ 10 :: s.body ++
    10 :: line (String.join (s.query.map (·.2))) ++ 10 :: 10 :: line (toString s.expires)

def Signed.header (s : Signed) (key : String) (secret : List UInt8) : String :=
  let names := if s.query.isEmpty then ""
    else ",signed-query-args=" ++ ";".intercalate (s.query.map (·.1))
  let digest := String.ofList (Text.Base64.encode (Crypto.hmac secret s.message))
  s!"EXO2-HMAC-SHA256 credential={key}{names},expires={s.expires},signature={digest}"

def Signed.ofUrl (method url : String) (body : List UInt8) (expires : Int) :
    Except Url.Error Signed := do
  let a ← Url.Address.read url
  pure ⟨method, a.path, body, signedQuery a.query, expires⟩

end KubeAtlas.Api
