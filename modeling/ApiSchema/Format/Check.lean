import ApiSchema.Format.Date
import ApiSchema.Format.Email
import ApiSchema.Format.Fixed
import ApiSchema.Format.Web

/-!
# Checks of formats
-/

namespace ApiSchema.Format

def check? (format : String) : Option (List Char → Bool) :=
  if format = "color-hex" then some isColorHex
  else if format = "date" ∨ format = "iso-date" then some isDate
  else if format = "date-time" ∨ format = "iso-date-time" then some isDateTime
  else if format = "email" then some isEmail
  else if format = "objectid" then some isObjectId
  else if format = "uri" ∨ format = "url" then some isWebAddress
  else if format = "uuid" then some isUuid
  else none

end ApiSchema.Format
