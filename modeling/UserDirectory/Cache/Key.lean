import UserDirectory.Json.Printer
import UserDirectory.Uuid.Text

namespace UserDirectory.CacheKey

def user (id : Uuid) : String := "user:" ++ id.render

/-- The key of the index entry of an email. -/
def email (email : String) : String := "user:email:" ++ email

end UserDirectory.CacheKey
