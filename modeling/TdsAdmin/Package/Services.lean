import TdsAdmin.Lib.Form
import TdsAdmin.Lib.Shell
import TdsAdmin.Package.Upload

/-!
# The commands for the services

What the script runs besides the insert: it asks OpenAM for a token twice, once for Program
Management and once for the Test Spec Bank, and Program Management for the tenant. Every command
is a string that is handed to the shell, with the values of the configuration pasted in as they
are.
-/

set_option autoImplicit false

namespace TdsAdmin
namespace Package

/-- `%Configuration`, less the switch for the debug output. -/
structure Configuration where
  openAmUri : Text
  openAmClientSecret : Text
  programMgmtUri : Text
  programMgmtTenant : Text
  programMgmtTenantLevel : Text
  progManUserId : Text
  progManPassword : Text
  testSpecBankUri : Text
  testSpecBankUserId : Text
  testSpecBankPassword : Text
  deriving DecidableEq, Repr

/-! ## OpenAM -/

def oAuthAccessUrl (c : Configuration) : Text :=
  c.openAmUri ++ "/auth/oauth2/access_token?realm=/sbac".toList

/-- `$OAuthParams`, for one of the two users. -/
def oAuthParams (c : Configuration) (userId password : Text) : Text :=
  "grant_type=password&client_id=pm&client_secret=".toList ++ c.openAmClientSecret ++
    "&username=".toList ++ userId ++ "&password=".toList ++ password

/-- The form header, with the name of the header missing. -/
def formHeader : Text := "application/x-www-form-urlencoded".toList

/-- A string between double quotes, as it stands in the script. -/
def quoted (s : Text) : Text := '"' :: (s ++ ['"'])

/-- The two commands start alike. -/
def oAuthWords : List Text :=
  ["curl".toList, "-s".toList, "--insecure".toList, "-3".toList, "--data".toList]

/-- `$OAuthTokenUrl` for Program Management. -/
def progManTokenUrl (c : Configuration) : Text :=
  "curl -s --insecure -3 --data ".toList ++
    quoted (oAuthParams c c.progManUserId c.progManPassword) ++ " --header ".toList ++
    quoted formHeader ++ ' ' :: oAuthAccessUrl c

/-- `$OAuthTokenUrl` for the Test Spec Bank, which puts the URL before the header. -/
def testSpecBankTokenUrl (c : Configuration) : Text :=
  "curl -s --insecure -3 --data ".toList ++
    quoted (oAuthParams c c.testSpecBankUserId c.testSpecBankPassword) ++ ' ' :: oAuthAccessUrl c ++
    " --header ".toList ++ quoted formHeader

/-! ## Program Management -/

def programMgmtUrl (c : Configuration) : Text :=
  c.programMgmtUri ++ "/rest/tenant?name=".toList ++ c.programMgmtTenant ++
    "&type=".toList ++ c.programMgmtTenantLevel

def programMgmtParams (progManAccessToken : Option Text) : Text :=
  "Authorization: Bearer ".toList ++ interpolate progManAccessToken

def tenantWords : List Text :=
  ["curl".toList, "-s".toList, "-G".toList, "--insecure".toList, "-3".toList, "--header".toList]

def tenantIdUrl (c : Configuration) (progManAccessToken : Option Text) : Text :=
  "curl -s -G --insecure -3 --header ".toList ++ quoted (programMgmtParams progManAccessToken) ++
    ' ' :: programMgmtUrl c

/-! ## A run -/

/-- One run of the script, with the tokens it was given: the session that processes the files
has the Test Spec Bank of the configuration. -/
structure Run where
  configuration : Configuration
  progManAccessToken : Option Text
  session : Session
  bank : session.testSpecBankUri = configuration.testSpecBankUri

end Package
end TdsAdmin
